import RavenLang.Grammar.Ends
import RavenLang.Grammar.Statement

/-!
# The parser reads what is ahead

At a place of the input the parser does what the readers do with the tokens that are
ahead there. So it looks at no token that is not there, and comes to an end.
-/

namespace RavenLang.Parser

open Grammar

/-! ## Places -/

section
variable (ts : List Token)

/-- The place of the first end-of-input token. -/
def finish : Nat := (Token.beforeEnd ts).length

/-- These tokens are ahead at a place before the end, or at it. -/
structure Ahead (p : Nat) (us : List Token) : Prop where
  le : p ≤ finish ts
  eq : us = (Token.beforeEnd ts).drop p

end

variable {ts us : List Token} {t : Token} {n p q : Nat}

namespace Ahead

theorem start (ts : List Token) : Ahead ts 0 (Token.beforeEnd ts) := ⟨Nat.zero_le _, rfl⟩

theorem length (h : Ahead ts p us) : p + us.length = finish ts := by
  have hle : p ≤ (Token.beforeEnd ts).length := h.le
  rw [h.eq, List.length_drop, finish]
  omega

theorem token?_eq (h : Ahead ts p us) : (Buffer.of ts).token? p = (Token.closed ts)[p]? := by
  obtain ⟨e, after, hc, -⟩ := Token.exists_end ts
  have hle : p ≤ (Token.beforeEnd ts).length := h.le
  have hmin : min p ((Token.closed ts).toArray.size - 1) = p := by
    rw [List.size_toArray, hc, List.length_append, List.length_cons]
    omega
  rw [Buffer.token?, Buffer.of, hmin, List.getElem?_toArray]

theorem head (h : Ahead ts p (t :: us)) :
    (Buffer.of ts).token? p = some t ∧ t.kind ≠ .endOfInput ∧ Ahead ts (p + 1) us := by
  obtain ⟨e, after, hc, -⟩ := Token.exists_end ts
  have hget : (Token.beforeEnd ts)[p]? = some t := by rw [← List.head?_drop, ← h.eq, List.head?_cons]
  obtain ⟨hlt, -⟩ := List.getElem?_eq_some_iff.1 hget
  have htail : us = (Token.beforeEnd ts).drop (p + 1) := by rw [← List.tail_drop, ← h.eq, List.tail_cons]
  refine ⟨?_, Token.kind_of_mem_beforeEnd (List.mem_of_getElem? hget), hlt, htail⟩
  rw [h.token?_eq, hc, List.getElem?_append_left hlt, hget]

theorem finish_eq (h : Ahead ts p []) :
    ∃ e, (Buffer.of ts).token? p = some e ∧ e.kind = .endOfInput ∧ e.span = Token.endSpan ts := by
  obtain ⟨e, after, hc, he, hs⟩ := Token.exists_end ts
  have hp : p = (Token.beforeEnd ts).length := h.length
  refine ⟨e, ?_, he, hs⟩
  rw [h.token?_eq, hc, List.getElem?_append_right (Nat.le_of_eq hp.symm), hp, Nat.sub_self]
  rfl

end Ahead

/-! ## Loops -/

inductive Loop where
  | arguments
  | entries
  | operands (c : Chain)
  | suffixes
  | body
  | statements

namespace Loop

/-- What a loop carries from round to round. -/
abbrev State : Loop → Type
  | arguments => Array Expr
  | entries => Array Entry
  | operands _ | suffixes => Expr
  | body | statements => Array Stmt

def goes : Loop → Token → Bool
  | arguments, t => t.kind = .comma
  | entries, t | body, t => t.kind ≠ .endOfInput && t.kind ≠ .closeBrace
  | operands c, t => t.isOperator c.operators
  | suffixes, t => startsSuffix t
  | statements, t => t.kind ≠ .endOfInput

variable (b : Buffer)

def round : (l : Loop) → l.State → Parser l.State
  | arguments, read => return Array.push read (← b.nextArgument)
  | entries, read => return Array.push read (← b.entry)
  | operands c, left => b.operand c left
  | suffixes, e => b.suffix e
  | body, read | statements, read => return Array.push read (← b.statement)

def run : (l : Loop) → l.State → Parser l.State
  | arguments => b.furtherArguments
  | entries => b.entries
  | operands c => b.operands c
  | suffixes => b.suffixes
  | body => b.body
  | statements => b.statements

theorem run_eq (l : Loop) (s : l.State) :
    l.run b s = b.peek >>= fun t => if l.goes t then l.round b s >>= l.run b else pure s := by
  cases l with
  | arguments =>
    rw [run, Buffer.furtherArguments]
    simp only [goes, round, decide_eq_true_eq, bind_assoc, pure_bind]
  | entries =>
    rw [run, Buffer.entries]
    simp only [goes, round, bind_assoc, pure_bind]
  | operands => exact Buffer.operands.eq_1 b _ s
  | suffixes => exact Buffer.suffixes.eq_1 b s
  | body =>
    rw [run, Buffer.body]
    simp only [goes, round, bind_assoc, pure_bind]
  | statements =>
    rw [run, Buffer.statements]
    simp only [goes, round, decide_eq_true_eq, bind_assoc, pure_bind]

theorem goes_of_end (l : Loop) {t : Token} (h : t.kind = .endOfInput) : l.goes t = false := by
  cases l <;> simp [goes, Token.isOperator, startsSuffix, h]

end Loop

/-! ## Following a reader -/

section
variable {α β γ δ : Type}

/-- At a place a parser does what a reader does of the tokens ahead. It never steps back, and stops at the end
at the latest. What the reader returns is `seen` as a value and the tokens that are left. -/
def Follows (ts : List Token) (m : Parser α) (p : Nat) (seen : β → α × List Token) (r : Except SyntaxFault β) :
    Prop :=
  match r with
  | .error fault => ∃ q, p ≤ q ∧ q ≤ finish ts ∧ m.outcome p = some (.error fault, q)
  | .ok b => ∃ q, p ≤ q ∧ Ahead ts q (seen b).2 ∧ m.outcome p = some (.ok (seen b).1, q)

def ofPhrase (f : β → α) (phrase : Phrase β n) : α × List Token := (f phrase.value, phrase.rest)

def ofPhrases (f : List β → α) (phrases : Phrases β n) : α × List Token := (f phrases.values, phrases.rest)

namespace Follows

variable {m : Parser α} {k : α → Parser γ} {seen : β → α × List Token} {seen' : δ → γ × List Token}
  {r : Except SyntaxFault β}

theorem pure {v : α} {b : β} (h : Ahead ts p us) (hb : seen b = (v, us)) : Follows ts (pure v) p seen (.ok b) :=
  ⟨p, Nat.le_refl _, by rwa [hb], by rw [outcome_pure, hb]⟩

theorem throw {fault : SyntaxFault} (h : Ahead ts p us) :
    Follows ts (throw fault : Parser α) p seen (.error fault) :=
  ⟨p, Nat.le_refl _, h.le, rfl⟩

theorem of_outcome {m' : Parser α} (h : Follows ts m' q seen r) (hpq : p ≤ q)
    (he : m.outcome p = m'.outcome q) : Follows ts m p seen r := by
  cases r with
  | error fault =>
    obtain ⟨q', hq, hend, h⟩ := h
    exact ⟨q', Nat.le_trans hpq hq, hend, he.trans h⟩
  | ok b =>
    obtain ⟨q', hq, ha, h⟩ := h
    exact ⟨q', Nat.le_trans hpq hq, ha, he.trans h⟩

theorem bind {k' : β → Except SyntaxFault δ} (hm : Follows ts m p seen r)
    (hk : ∀ b q, Ahead ts q (seen b).2 → Follows ts (k (seen b).1) q seen' (k' b)) :
    Follows ts (m >>= k) p seen' (r >>= k') := by
  cases r with
  | error fault =>
    obtain ⟨q, hpq, hq, hm⟩ := hm
    exact ⟨q, hpq, hq, by rw [outcome_bind, hm]⟩
  | ok b =>
    obtain ⟨q, hpq, hq, hm⟩ := hm
    exact (hk b q hq).of_outcome hpq (by rw [outcome_bind, hm])

theorem map {seen' : δ → α × List Token} {f : β → δ} (hm : Follows ts m p seen r)
    (hf : ∀ b, seen' (f b) = seen b) :
    Follows ts m p seen' (r >>= fun b => .ok (f b)) := by
  cases r with
  | error fault => exact hm
  | ok b =>
    obtain ⟨q, hpq, hq, hm⟩ := hm
    exact ⟨q, hpq, by rwa [hf], by rwa [hf]⟩

theorem value {f : β → α} {r : Reading β n} (hm : Follows ts m p (ofPhrase f) r) (g : α → γ) :
    Follows ts (m >>= fun v => Pure.pure (g v)) p (ofPhrase (g ∘ f)) r := by
  cases r with
  | error fault =>
    obtain ⟨q, hpq, hq, hm⟩ := hm
    exact ⟨q, hpq, hq, by rw [outcome_bind, hm]⟩
  | ok b =>
    obtain ⟨q, hpq, hq, hm⟩ := hm
    exact ⟨q, hpq, hq, by rw [outcome_bind, hm]; rfl⟩

theorem bind_phrase {f : β → α} {r : Reading β n} {k' : Phrase β n → Except SyntaxFault δ}
    (hm : Follows ts m p (ofPhrase f) r)
    (hk : ∀ v us h q, Ahead ts q us → Follows ts (k (f v)) q seen' (k' ⟨v, us, h⟩)) :
    Follows ts (m >>= k) p seen' (r >>= k') :=
  hm.bind fun b q hq => hk b.value b.rest b.rest_lt q hq

theorem bind_phrases {f : List β → α} {r : Except SyntaxFault (Phrases β n)}
    {k' : Phrases β n → Except SyntaxFault δ}
    (hm : Follows ts m p (ofPhrases f) r)
    (hk : ∀ vs us h q, Ahead ts q us → Follows ts (k (f vs)) q seen' (k' ⟨vs, us, h⟩)) :
    Follows ts (m >>= k) p seen' (r >>= k') :=
  hm.bind fun b q hq => hk b.values b.rest b.rest_le q hq

theorem bind_lift {x : Except SyntaxFault α} {k' : α → Except SyntaxFault δ} (h : Ahead ts p us)
    (hk : ∀ v, Follows ts (k v) p seen' (k' v)) : Follows ts ((x : Parser α) >>= k) p seen' (x >>= k') := by
  cases x with
  | error fault => exact throw h
  | ok v => exact (hk v).of_outcome (Nat.le_refl _) rfl

/-! ### Looking ahead -/

theorem peek_cons {k : Token → Parser α} (h : Ahead ts p (t :: us)) (hk : Follows ts (k t) p seen r) :
    Follows ts ((Buffer.of ts).peek >>= k) p seen r :=
  hk.of_outcome (Nat.le_refl _) (outcome_bind_peek h.head.1 k)

theorem peek_nil {k : Token → Parser α} (h : Ahead ts p [])
    (hk : ∀ e, e.kind = .endOfInput → Follows ts (k e) p seen r) :
    Follows ts ((Buffer.of ts).peek >>= k) p seen r := by
  obtain ⟨e, he, hkind, -⟩ := h.finish_eq
  exact (hk e hkind).of_outcome (Nat.le_refl _) (outcome_bind_peek he k)

theorem isAt_cons {kind : TokenKind} {k : Bool → Parser α} (h : Ahead ts p (t :: us))
    (hk : Follows ts (k (t.kind = kind)) p seen r) : Follows ts ((Buffer.of ts).isAt kind >>= k) p seen r := by
  rw [Buffer.isAt, bind_assoc]
  exact peek_cons h (by rwa [pure_bind])

theorem isAt_nil {kind : TokenKind} {k : Bool → Parser α} (h : Ahead ts p [])
    (hk : Follows ts (k (TokenKind.endOfInput = kind)) p seen r) :
    Follows ts ((Buffer.of ts).isAt kind >>= k) p seen r := by
  rw [Buffer.isAt, bind_assoc]
  exact peek_nil h fun e he => by rwa [pure_bind, he]

theorem next_cons {k : Token → Parser α} (h : Ahead ts p (t :: us)) (hk : Follows ts (k t) (p + 1) seen r) :
    Follows ts ((Buffer.of ts).next >>= k) p seen r := by
  obtain ⟨ht, hkind, -⟩ := h.head
  refine hk.of_outcome (Nat.le_succ _) ?_
  rw [outcome_bind_next ht, if_neg hkind]

theorem next_nil {k : Token → Parser α} (h : Ahead ts p [])
    (hk : ∀ e, e.kind = .endOfInput → e.span = Token.endSpan ts → Follows ts (k e) p seen r) :
    Follows ts ((Buffer.of ts).next >>= k) p seen r := by
  obtain ⟨e, he, hkind, hspan⟩ := h.finish_eq
  exact (hk e hkind hspan).of_outcome (Nat.le_refl _) (by rw [outcome_bind_next he, if_pos hkind])

theorem isAt_true {kind : TokenKind} {yes no : Parser α} {rest : List Token} {hlt : rest.length < us.length}
    (h : Ahead ts p us) (ha : accept kind us = some ⟨t, rest, hlt⟩)
    (hk : Ahead ts p (t :: rest) → t.kind = kind → Follows ts yes p seen r) :
    Follows ts ((Buffer.of ts).isAt kind >>= fun b => if b then yes else no) p seen r := by
  cases us with
  | nil => cases ha
  | cons u us =>
    rw [accept] at ha
    split at ha
    · next hu =>
      cases ha
      refine isAt_cons h ?_
      rw [if_pos (decide_eq_true hu)]
      exact hk h hu
    · cases ha

theorem isAt_false {kind : TokenKind} {yes no : Parser α} (hkind : kind ≠ .endOfInput) (h : Ahead ts p us)
    (ha : accept kind us = none) (hk : Follows ts no p seen r) :
    Follows ts ((Buffer.of ts).isAt kind >>= fun b => if b then yes else no) p seen r := by
  cases us with
  | nil =>
    refine isAt_nil h ?_
    rwa [if_neg (by simpa using hkind.symm)]
  | cons u us =>
    rw [accept] at ha
    split at ha
    · cases ha
    · next hu =>
      refine isAt_cons h ?_
      rwa [if_neg (by simpa using hu)]

theorem isAt_startsWith {kind : TokenKind} (hkind : kind ≠ .endOfInput) (h : Ahead ts p us) {k : Bool → Parser α}
    (hk : Follows ts (k (startsWith kind us)) p seen r) :
    Follows ts ((Buffer.of ts).isAt kind >>= k) p seen r := by
  cases us with
  | nil =>
    refine isAt_nil h ?_
    rwa [decide_eq_false hkind.symm]
  | cons t us => exact isAt_cons h hk

theorem expect_cons {kind : TokenKind} {expected : String} {k : Token → Parser α} (h : Ahead ts p (t :: us))
    (ht : t.kind = kind) (hk : Follows ts (k t) (p + 1) seen r) :
    Follows ts ((Buffer.of ts).expect kind expected >>= k) p seen r := by
  rw [Buffer.expect, bind_assoc]
  refine next_cons h ?_
  rwa [if_pos ht, pure_bind]

theorem expect {kind : TokenKind} (hkind : kind ≠ .endOfInput) (expected : String) (h : Ahead ts p us) :
    Follows ts ((Buffer.of ts).expect kind expected) p (ofPhrase id)
      (token (Token.endSpan ts) kind expected us) := by
  cases us with
  | nil =>
    refine next_nil h fun e he hs => ?_
    rw [if_neg (by rw [he]; exact hkind.symm), Token.unexpected, if_pos he, hs]
    exact throw h
  | cons t us =>
    obtain ⟨-, ht, hrest⟩ := h.head
    refine next_cons h ?_
    by_cases hk : t.kind = kind
    · simp only [token, accept, hk, if_true]
      exact pure hrest rfl
    · simp only [token, accept, hk, if_false, Token.unexpected, ht]
      exact throw hrest

/-- A loop takes the phrases that its rounds take. -/
theorem loop (l : Loop) {starts : Token → Bool} {phrase : Reader α n} {step : l.State → α → l.State}
    (hgo : ∀ t, t.kind ≠ .endOfInput → l.goes t = starts t)
    (hround : ∀ s p t us h, Ahead ts p (t :: us) → starts t = true →
      Follows ts (l.round (Buffer.of ts) s) p (ofPhrase (step s)) (phrase (t :: us) h))
    (h : us.length < n) (ha : Ahead ts p us) (s : l.State) :
    Follows ts (l.run (Buffer.of ts) s) p (ofPhrases (·.foldl step s)) (many starts phrase us h) := by
  induction us using (measure List.length).wf.induction generalizing p s with
  | h us ih =>
    rw [l.run_eq]
    cases us with
    | nil =>
      refine peek_nil ha fun e he => ?_
      rw [l.goes_of_end he, many]
      exact pure ha rfl
    | cons t us =>
      refine peek_cons ha ?_
      rw [hgo t ha.head.2.1, many]
      split
      · next hs =>
        refine (hround s p t us h ha hs).bind_phrase fun v ws hlt q hq => ?_
        exact (ih ws hlt (Nat.lt_trans hlt h) hq (step s v)).map fun _ => rfl
      · exact pure ha rfl

end Follows

end

/-! ## Expressions -/

section
variable {sub : Reader Expr n}
  (hsub : ∀ us h p, Ahead ts p us → Follows ts (Buffer.of ts).expression p (ofPhrase id) (sub us h))
include hsub

theorem primary_follows (h : us.length ≤ n) (ha : Ahead ts p us) :
    Follows ts (Buffer.of ts).primary p (ofPhrase id) (Grammar.primary (Token.endSpan ts) sub us h) := by
  rw [Buffer.primary]
  cases us with
  | nil =>
    refine .next_nil ha fun e he hs => ?_
    simp only [he, Token.unexpected, if_true, hs]
    exact .throw ha
  | cons t us =>
    obtain ⟨-, hk, hrest⟩ := ha.head
    refine .next_cons ha ?_
    simp only [Token.unexpected, hk, if_false]
    rw [Grammar.primary]
    cases hkind : t.kind with
    | endOfInput => exact absurd hkind hk
    | identifier | string => exact .pure hrest rfl
    | number =>
      cases hx : Number.read? t.text with
      | none => exact .throw hrest
      | some x => exact .pure hrest rfl
    | openParen =>
      refine (hsub us h _ hrest).bind_phrase fun e vs hlt q hq => ?_
      refine (Follows.expect (by decide) _ hq).bind_phrase fun c ws hlt' q hq => ?_
      exact .pure hq rfl
    | _ => exact .throw hrest

/-! ### Suffixes -/

theorem nextArgument_follows {t : Token} (h : (t :: us).length < n) (ha : Ahead ts p (t :: us)) :
    Follows ts (Buffer.of ts).nextArgument p (ofPhrase id)
      (Grammar.nextArgument (Token.endSpan ts) sub (t :: us) h) := by
  rw [Buffer.nextArgument, ← Buffer.expression]
  refine .next_cons ha ?_
  exact ((hsub us (Nat.lt_of_succ_lt h) _ ha.head.2.2).map fun _ => rfl)

theorem arguments_follows (h : us.length ≤ n) (ha : Ahead ts p us) :
    Follows ts (Buffer.of ts).arguments p (ofPhrase id) (Grammar.arguments (Token.endSpan ts) sub us h) := by
  rw [Buffer.arguments, ← Buffer.expression]
  refine (Follows.expect (by decide) _ ha).bind_phrase fun o vs hlt q hq => ?_
  dsimp only
  cases hacc : accept .closeParen vs with
  | some close =>
    refine .isAt_true hq hacc fun hq ht => ?_
    rw [pure_bind]
    exact .expect_cons hq ht (.pure hq.head.2.2 rfl)
  | none =>
    refine .isAt_false (by decide) hq hacc ?_
    simp only [argumentList, bind_assoc]
    refine (hsub vs _ _ hq).bind_phrase fun e ws hlt' q hq => ?_
    refine (Follows.loop .arguments (fun _ _ => rfl)
      (fun read _ _ _ h ha _ => (nextArgument_follows hsub h ha).value (Array.push read)) _ hq
      #[e]).bind_phrases fun es ws hle q hq => ?_
    simp only [pure_bind]
    refine (Follows.expect (by decide) _ hq).bind_phrase fun c ws hlt' q hq => ?_
    refine .pure hq ?_
    simp [ofPhrase, Phrase.upTo]

theorem suffix_follows {t : Token} (h : (t :: us).length < n) (ha : Ahead ts p (t :: us))
    (ht : startsSuffix t = true) (e : Expr) :
    Follows ts ((Buffer.of ts).suffix e) p (ofPhrase (Suffix.apply e))
      (Grammar.suffix (Token.endSpan ts) sub (t :: us) h) := by
  rw [Buffer.suffix, Grammar.suffix]
  refine .peek_cons ha ?_
  cases hk : t.kind with
  | dot =>
    refine .next_cons ha ?_
    refine (Follows.expect (by decide) _ ha.head.2.2).bind_phrase fun name vs hlt q hq => ?_
    exact .pure hq rfl
  | openBracket =>
    refine .next_cons ha ?_
    refine (hsub us _ _ ha.head.2.2).bind_phrase fun key vs hlt q hq => ?_
    refine (Follows.expect (by decide) _ hq).bind_phrase fun c ws hlt' q hq => ?_
    exact .pure hq rfl
  | openParen =>
    refine (arguments_follows hsub _ ha).bind_phrase fun list vs hlt q hq => ?_
    exact .pure hq rfl
  | _ => simp [startsSuffix, hk] at ht

theorem postfixed_follows (h : us.length ≤ n) (ha : Ahead ts p us) :
    Follows ts (Buffer.of ts).postfixed p (ofPhrase id) (Grammar.postfixed (Token.endSpan ts) sub us h) := by
  rw [Buffer.postfixed, Grammar.postfixed]
  refine (primary_follows hsub h ha).bind_phrase fun e vs hlt q hq => ?_
  exact (Follows.loop .suffixes (fun _ _ => rfl) (fun e _ _ _ h ha ht => suffix_follows hsub h ha ht e) _ hq
    e).map fun _ => rfl

/-! ### Operators -/

section
omit hsub
variable {c : Chain} {inner : ∀ us : List Token, us.length ≤ n → Reading Expr us.length}
  (hinner : ∀ us h p, Ahead ts p us → Follows ts ((Buffer.of ts).tighter c) p (ofPhrase id) (inner us h))
include hinner

theorem operand_follows (h : (t :: us).length < n) (ha : Ahead ts p (t :: us)) (left : Expr) :
    Follows ts ((Buffer.of ts).operand c left) p (ofPhrase (joined left))
      (Grammar.operand (Token.endSpan ts) inner (t :: us) h) := by
  rw [Buffer.operand]
  refine .next_cons ha ?_
  refine (hinner us _ _ ha.head.2.2).bind_phrase fun right vs hlt q hq => ?_
  exact .pure hq rfl

theorem chain_follows (h : us.length ≤ n) (ha : Ahead ts p us) :
    Follows ts ((Buffer.of ts).chain c) p (ofPhrase id)
      (Grammar.chain (Token.endSpan ts) c.operators inner us h) := by
  rw [Buffer.chain, Grammar.chain]
  refine (hinner us h p ha).bind_phrase fun e vs hlt q hq => ?_
  exact (Follows.loop (.operands c) (fun _ _ => rfl)
    (fun left _ _ _ h ha _ => operand_follows hinner h ha left) _ hq e).map fun _ => rfl

end

theorem multiplicative_follows (h : us.length ≤ n) (ha : Ahead ts p us) :
    Follows ts ((Buffer.of ts).chain .product) p (ofPhrase id)
      (Grammar.multiplicative (Token.endSpan ts) sub us h) := by
  refine chain_follows (c := .product) (fun us h p ha => ?_) h ha
  rw [Buffer.tighter]
  exact postfixed_follows hsub h ha

theorem additive_follows (h : us.length ≤ n) (ha : Ahead ts p us) :
    Follows ts ((Buffer.of ts).chain .sum) p (ofPhrase id) (Grammar.additive (Token.endSpan ts) sub us h) := by
  refine chain_follows (c := .sum) (fun us h p ha => ?_) h ha
  rw [Buffer.tighter]
  exact multiplicative_follows hsub h ha

/-! ### Objects and assignment -/

theorem entry_follows (h : us.length < n) (ha : Ahead ts p us) :
    Follows ts (Buffer.of ts).entry p (ofPhrase id) (Grammar.entry (Token.endSpan ts) sub us h) := by
  rw [Buffer.entry, Grammar.entry]
  refine (Follows.expect (by decide) _ ha).bind_phrase fun key vs hlt q hq => ?_
  dsimp only
  cases hacc : accept .comma vs with
  | some comma =>
    refine .isAt_true hq hacc fun hq _ => ?_
    exact .next_cons hq (.pure hq.head.2.2 rfl)
  | none =>
    refine .isAt_false (by decide) hq hacc ?_
    refine .isAt_startsWith (by decide) hq ?_
    split
    · exact .pure hq rfl
    · refine (Follows.expect (by decide) _ hq).bind_phrase fun colon vs hlt q hq => ?_
      rw [entryValue, bind_assoc]
      refine (hsub vs _ _ hq).bind_phrase fun value vs hlt q hq => ?_
      refine .isAt_startsWith (by decide) hq ?_
      dsimp only
      cases startsWith .closeBrace vs with
      | true => exact .pure hq rfl
      | false =>
        simp only [Bool.not_false, if_true, Bool.false_eq_true, if_false, bind_assoc, pure_bind]
        refine (Follows.expect (by decide) _ hq).bind_phrase fun comma vs hlt q hq => ?_
        exact .pure hq rfl

theorem object_follows (h : us.length ≤ n) (ha : Ahead ts p us) :
    Follows ts (Buffer.of ts).object p (ofPhrase id) (Grammar.object (Token.endSpan ts) sub us h) := by
  rw [Buffer.object]
  cases us with
  | nil => exact .isAt_nil ha (additive_follows hsub h ha)
  | cons t us =>
    refine .isAt_cons ha ?_
    rw [Grammar.object]
    by_cases ht : t.kind = .openBrace
    · simp only [ht, decide_true, if_true]
      refine .next_cons ha ?_
      refine (Follows.loop .entries (fun t ht => by simp [Loop.goes, ht])
        (fun read _ _ _ h ha _ => (entry_follows hsub h ha).value (Array.push read)) _ ha.head.2.2
        #[]).bind_phrases fun es vs hle q hq => ?_
      refine (Follows.expect (by decide) _ hq).bind_phrase fun c vs hlt q hq => ?_
      refine .pure hq ?_
      simp [ofPhrase]
    · simp only [ht, decide_false, if_false, Bool.false_eq_true]
      exact additive_follows hsub h ha

theorem assignment_follows (h : us.length ≤ n) (ha : Ahead ts p us) :
    Follows ts (Buffer.of ts).assignment p (ofPhrase id) (Grammar.assignment (Token.endSpan ts) sub us h) := by
  rw [Buffer.assignment, ← Buffer.expression, Grammar.assignment]
  refine (object_follows hsub h ha).bind_phrase fun target vs hlt q hq => ?_
  dsimp only
  cases hacc : accept .equals vs with
  | none => exact .isAt_false (by decide) hq hacc (.pure hq rfl)
  | some equals =>
    refine .isAt_true hq hacc fun hq _ => ?_
    refine .next_cons hq ?_
    refine (hsub _ _ _ hq.head.2.2).bind_phrase fun value vs hlt q hq => ?_
    exact .pure hq rfl

end

theorem expression_follows (ha : Ahead ts p us) :
    Follows ts (Buffer.of ts).expression p (ofPhrase id) (Grammar.expression (Token.endSpan ts) us) := by
  induction us using (measure List.length).wf.induction generalizing p with
  | h us ih =>
    rw [Buffer.expression, Grammar.expression]
    exact assignment_follows (fun vs h q hq => ih vs h hq) (Nat.le_refl _) ha

/-! ## Statements -/

theorem declaration_follows {k : Token} (ha : Ahead ts p (k :: us)) :
    Follows ts (Buffer.of ts).declaration p (ofPhrase id) (Grammar.declaration (Token.endSpan ts) k us) := by
  rw [Buffer.declaration, Grammar.declaration]
  refine .next_cons ha ?_
  refine (Follows.expect (by decide) _ ha.head.2.2).bind_phrase fun name vs hlt q hq => ?_
  dsimp only
  cases hacc : accept .semicolon vs with
  | some last =>
    refine .isAt_true hq hacc fun hq _ => ?_
    refine .next_cons hq ?_
    dsimp only
    by_cases hk : k.kind = .constWord
    · simp only [hk, decide_true, if_true]
      exact .throw hq.head.2.2
    · simp only [hk, decide_false, if_false]
      exact .pure hq.head.2.2 rfl
  | none =>
    refine .isAt_false (by decide) hq hacc ?_
    refine (Follows.expect (by decide) _ hq).bind_phrase fun equals vs hlt q hq => ?_
    refine (expression_follows hq).bind_phrase fun value vs hlt q hq => ?_
    refine (Follows.expect (by decide) _ hq).bind_phrase fun last vs hlt q hq => ?_
    exact .pure hq rfl

theorem expressionStatement_follows (ha : Ahead ts p us) :
    Follows ts (Buffer.of ts).expressionStatement p (ofPhrase id)
      (Grammar.expressionStatement (Token.endSpan ts) us) := by
  rw [Buffer.expressionStatement, Grammar.expressionStatement]
  refine (expression_follows ha).bind_phrase fun e vs hlt q hq => ?_
  dsimp only
  cases hacc : accept .semicolon vs with
  | some last =>
    refine .isAt_true hq hacc fun hq _ => ?_
    exact .next_cons hq (.pure hq.head.2.2 rfl)
  | none => exact .isAt_false (by decide) hq hacc (.pure hq rfl)

section
variable {sub : Reader Stmt n}
  (hsub : ∀ us h p, Ahead ts p us → Follows ts (Buffer.of ts).statement p (ofPhrase id) (sub us h))
include hsub

theorem functionDeclaration_follows {k : Token} (h : us.length < n) (ha : Ahead ts p (k :: us)) :
    Follows ts (Buffer.of ts).functionDeclaration p (ofPhrase id)
      (Grammar.functionDeclaration (Token.endSpan ts) sub k us h) := by
  rw [Buffer.functionDeclaration, Grammar.functionDeclaration]
  refine .next_cons ha ?_
  refine (Follows.expect (by decide) _ ha.head.2.2).bind_phrase fun name vs hlt q hq => ?_
  refine (arguments_follows (fun _ _ _ ha => expression_follows ha) _ hq).bind_phrase fun list vs hlt q hq => ?_
  refine .bind_lift hq fun names => ?_
  refine (Follows.expect (by decide) _ hq).bind_phrase fun start vs hlt q hq => ?_
  refine (Follows.loop .body (fun t ht => by simp [Loop.goes, ht])
    (fun read _ _ _ h ha _ => (hsub _ h _ ha).value (Array.push read)) _ hq
    #[]).bind_phrases fun ss vs hle q hq => ?_
  refine (Follows.expect (by decide) _ hq).bind_phrase fun c vs hlt q hq => ?_
  refine .pure hq ?_
  simp [ofPhrase]

theorem statementOver_follows (h : us.length ≤ n) (ha : Ahead ts p us) :
    Follows ts (Buffer.of ts).statement p (ofPhrase id) (statementOver (Token.endSpan ts) sub us h) := by
  rw [Buffer.statement]
  cases us with
  | nil =>
    refine .peek_nil ha fun e he => ?_
    rw [he]
    exact expressionStatement_follows ha
  | cons t us =>
    refine .peek_cons ha ?_
    rw [statementOver]
    cases hk : t.kind with
    | letWord | constWord => exact (declaration_follows ha).map fun _ => rfl
    | fnWord => exact (functionDeclaration_follows hsub h ha).map fun _ => rfl
    | _ => exact expressionStatement_follows ha

end

theorem statement_follows (ha : Ahead ts p us) :
    Follows ts (Buffer.of ts).statement p (ofPhrase id) (Grammar.statement (Token.endSpan ts) us) := by
  induction us using (measure List.length).wf.induction generalizing p with
  | h us ih =>
    rw [Grammar.statement]
    exact statementOver_follows (fun vs h q hq => ih vs h hq) (Nat.le_refl _) ha

theorem statements_follows (h : us.length < n) (ha : Ahead ts p us) (read : Array Stmt) :
    Follows ts ((Buffer.of ts).statements read) p (ofPhrases (·.foldl Array.push read))
      (many (fun _ => true) (fun us (_ : us.length < n) => Grammar.statement (Token.endSpan ts) us) us h) := by
  refine Follows.loop .statements (fun t ht => ?_) (fun read _ _ _ _ ha _ => ?_) h ha read
  · simp [Loop.goes, ht]
  · exact (statement_follows ha).value (Array.push read)

/-- There is an outcome, and it is what is read of the tokens before the end. -/
theorem program_outcome (ts : List Token) :
    ∃ q ≤ finish ts,
      (Buffer.of ts).program.outcome 0 = some (Grammar.program (Token.endSpan ts) (Token.beforeEnd ts), q) := by
  have hs := statements_follows (Nat.lt_succ_self _) (.start ts) #[]
  rw [Grammar.program, Buffer.program, outcome_bind]
  unfold Follows at hs
  split at hs
  · next fault hr =>
    obtain ⟨q, -, hq, hs⟩ := hs
    exact ⟨q, hq, by rw [hr, hs]; rfl⟩
  · next phrases hr =>
    obtain ⟨q, -, hq, hs⟩ := hs
    refine ⟨q, hq.le, ?_⟩
    rw [hr, hs]
    simp [ofPhrases, Except.map]

theorem read?_eq (ts : List Token) :
    read? ts = some (Grammar.program (Token.endSpan ts) (Token.beforeEnd ts)) := by
  obtain ⟨q, -, hq⟩ := program_outcome ts
  rw [read?, hq, Option.map_some]

end RavenLang.Parser
