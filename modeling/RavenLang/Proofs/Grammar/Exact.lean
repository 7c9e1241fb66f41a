import RavenLang.Proofs.Grammar.Derivation
import RavenLang.Proofs.Grammar.Reads

/-!
# Expressions are read as the grammar derives them

The reader of a level reads the phrases of that level before a rest that cannot
continue them, and nothing else. What can continue a phrase is told by one token.
-/

namespace RavenLang.Grammar

/-! ## Where a level stops -/

namespace Level

/-- Whether a phrase goes on with a token, unless it ends in an object literal. -/
def goesOn (l : Level) (t : Token) : Bool :=
  decide (l.rank ≤ 4) && startsSuffix t || decide (l.rank ≤ 3) && t.isOperator multiplicative.operators ||
    decide (l.rank ≤ 2) && t.isOperator additive.operators

def Halts (l : Level) (rest : List Token) : Prop := ∀ t, rest.head? = some t → l.goesOn t = false

def Stops (l : Level) (us rest : List Token) : Prop :=
  (endsInBrace us = true ∨ l.Halts rest) ∧ (l = .assignment → ∀ t, rest.head? = some t → t.kind ≠ .equals)

/-- A phrase of the level before a rest that does not continue it. -/
def Whole (l : Level) (e : Expr) (us rest : List Token) : Prop := Derives (.expr l e) us ∧ l.Stops us rest

theorem whole_iff {l : Level} (hl : 2 ≤ l.rank) {e : Expr} {us rest : List Token} :
    l.Whole e us rest ↔ Derives (.expr l e) us ∧ l.Halts rest := by
  refine and_congr_right fun h => ?_
  have hne : l ≠ .assignment := by rintro rfl; exact absurd hl (by decide)
  simp [Stops, h.endsInBrace_eq_false hl, hne]

theorem halts_cons {l : Level} {t : Token} {rest : List Token} :
    l.Halts (t :: rest) ↔ l.goesOn t = false := by
  simp [Halts]

theorem halts_primary (rest : List Token) : primary.Halts rest := fun t _ => by simp [goesOn, rank]

theorem halts_postfixed {rest : List Token} :
    postfixed.Halts rest ↔ ∀ t, rest.head? = some t → startsSuffix t = false := by
  simp [Halts, goesOn, rank]

theorem goesOn_eq_false {l : Level} {t : Token} (hd : t.kind ≠ .dot) (hb : t.kind ≠ .openBracket)
    (hp : t.kind ≠ .openParen) (ho : t.kind ≠ .operator) : l.goesOn t = false := by
  simp [goesOn, startsSuffix, Token.isOperator, hd, hb, hp, ho]

def closes (t : Token) : Prop :=
  t.kind = .comma ∨ t.kind = .semicolon ∨ t.kind = .closeParen ∨ t.kind = .closeBracket ∨ t.kind = .closeBrace

theorem stops_of_closes {l : Level} {t : Token} (h : closes t) (us rest : List Token) :
    l.Stops us (t :: rest) := by
  refine ⟨.inr (halts_cons.2 ?_), fun _ u hu => ?_⟩
  · apply goesOn_eq_false <;> rcases h with h | h | h | h | h <;> simp [h]
  · cases hu
    rcases h with h | h | h | h | h <;> simp [h]

theorem stops_append {l : Level} {us : List Token} (h : us ≠ []) (vs rest : List Token) :
    l.Stops (vs ++ us) rest ↔ l.Stops us rest := by
  simp only [Stops, endsInBrace_append h]

theorem stops_congr {l : Level} {us rest rest' : List Token} (h : rest.head? = rest'.head?) :
    l.Stops us rest ↔ l.Stops us rest' := by
  simp only [Stops, Halts, h]

theorem stops_nil (l : Level) (us : List Token) : l.Stops us [] := ⟨.inr (by simp [Halts]), by simp⟩

end Level

open Level (closes)

variable {n : Nat} {stop : Span} {sub : Reader Expr n}

theorem reads_sub (hs : Exact Level.assignment.Whole sub) {ts : List Token} {h : ts.length < n} {e : Expr}
    {c : Token} {rest : List Token} (hc : closes c) :
    Reads (sub ts h) e (c :: rest) ↔ ∃ us, ts = us ++ c :: rest ∧ Derives (.expr .assignment e) us := by
  rw [hs]
  exact exists_congr fun us => and_congr_right fun _ => and_iff_left (Level.stops_of_closes hc us rest)

/-! ## Primaries -/

theorem primary_exact (hs : Exact Level.assignment.Whole sub) :
    Exact (P := (·.length ≤ n)) Level.primary.Whole (primary stop sub) := by
  intro ts h e rest
  simp only [Level.whole_iff (l := .primary) (by decide), Level.halts_primary, and_true]
  constructor
  · intro hr
    cases ts with
    | nil => simp [primary] at hr
    | cons t ts =>
      rw [primary] at hr
      split at hr
      · next hk =>
        obtain ⟨rfl, rfl⟩ := (reads_pure _ _ _).1 hr
        exact ⟨[t], rfl, .name hk⟩
      · next hk =>
        obtain ⟨rfl, rfl⟩ := (reads_pure _ _ _).1 hr
        exact ⟨[t], rfl, .string hk⟩
      · next hk =>
        split at hr
        · next x hx =>
          obtain ⟨rfl, rfl⟩ := (reads_pure _ _ _).1 hr
          exact ⟨[t], rfl, .number hk hx⟩
        · simp at hr
      · next hk =>
        simp only [reads_bind_phrase, reads_token, reads_pure, Phrase.behind, Phrase.upTo] at hr
        obtain ⟨inner, _, _, hi, c, _, _, ⟨rfl, hc⟩, rfl, rfl⟩ := hr
        obtain ⟨us, rfl, hd⟩ := (reads_sub hs (by simp [closes, hc])).1 hi
        exact ⟨t :: (us ++ [c]), by simp, .group hk hd hc⟩
      · simp at hr
  · intro h
    obtain ⟨us, hts, hd⟩ := h
    cases hd with
    | @name t hk =>
      obtain rfl : ts = t :: rest := hts
      simp [primary, hk]
    | @string t hk =>
      obtain rfl : ts = t :: rest := hts
      simp [primary, hk]
    | @number t x hk hx =>
      obtain rfl : ts = t :: rest := hts
      simp [primary, hk, hx]
    | @group o c inner us hk hd hc =>
      obtain rfl : ts = o :: (us ++ c :: rest) := by simpa using hts
      have hi := (reads_sub hs (h := h) (by simp [closes, hc])).2 ⟨us, rfl, hd⟩
      simp only [primary, hk, reads_bind_phrase, reads_token, reads_pure, Phrase.behind, Phrase.upTo]
      exact ⟨inner, _, hi.lt, hi, c, rest, by simp, ⟨rfl, hc⟩, rfl, rfl⟩
    | tighter hp => exact absurd rfl hp
    | binary _ ho => simp [Level.operators, Token.isOperator] at ho

/-! ## Arguments -/

def NextArgument (e : Expr) (us rest : List Token) : Prop :=
  ∃ c ts, us = c :: ts ∧ Level.assignment.Whole e ts rest

theorem nextArgument_exact (hs : Exact Level.assignment.Whole sub) :
    Exact NextArgument (nextArgument stop sub) := by
  intro ts h e rest
  constructor
  · intro hr
    cases ts with
    | nil => simp [nextArgument] at hr
    | cons c ts =>
      simp only [nextArgument, reads_bind_phrase, reads_pure, Phrase.behind] at hr
      obtain ⟨_, _, _, hr, rfl, rfl⟩ := hr
      obtain ⟨us, rfl, hw⟩ := (hs _ _ _ _).1 hr
      exact ⟨c :: us, rfl, c, us, rfl, hw⟩
  · intro h
    obtain ⟨_, hts, c, us, rfl, hw⟩ := h
    obtain rfl : ts = c :: (us ++ rest) := hts
    simp only [nextArgument, reads_bind_phrase, reads_pure, Phrase.behind]
    have hr := (hs (us ++ rest) (Nat.lt_of_succ_lt h) e rest).2 ⟨us, rfl, hw⟩
    exact ⟨e, rest, hr.lt, hr, rfl, rfl⟩

abbrev startsComma (t : Token) : Bool := t.kind = .comma

theorem derives_arguments {e : Expr} {ts rest us : List Token} {es : List Expr}
    (he : Derives (.expr .assignment e) ts) (h : Repeated (Started startsComma NextArgument) rest es us) :
    Derives (.arguments (e :: es)) (ts ++ us) := by
  induction h generalizing e ts with
  | nil => simpa using Derives.argument he
  | @cons f es us ws hn _ ih =>
    obtain ⟨⟨c, us, rfl, hw, _⟩, t, ht, hc⟩ := hn
    obtain rfl : c = t := by simpa using ht
    simpa using Derives.nextArgument he (by simpa using hc) (ih hw)

theorem repeated_of_arguments {e : Expr} {es : List Expr} {us rest : List Token}
    (h : Derives (.arguments (e :: es)) us) (hstop : Level.assignment.Stops us rest) :
    ∃ ts ws, us = ts ++ ws ∧ Derives (.expr .assignment e) ts ∧ Level.assignment.Stops ts (ws ++ rest) ∧
      Repeated (Started startsComma NextArgument) rest es ws := by
  generalize hf : Form.arguments (e :: es) = f at h
  induction h generalizing e es with
  | argument he =>
    cases hf
    exact ⟨_, [], by simp, he, hstop, .nil⟩
  | @nextArgument e ts d f es us he hd hus _ ih =>
    cases hf
    have hne : us ≠ [] := by
      cases hus with
      | argument he => exact he.ne_nil
      | nextArgument => exact fun h => nomatch (List.append_eq_nil_iff.1 h).2
    rw [List.append_cons, Level.stops_append hne] at hstop
    obtain ⟨ts', ws, rfl, hf, hstop', hrep⟩ := ih hstop rfl
    have hstart : Started startsComma NextArgument f (d :: ts') (ws ++ rest) :=
      ⟨⟨d, ts', rfl, hf, hstop'⟩, d, rfl, by simpa using hd⟩
    exact ⟨ts, d :: ts' ++ ws, by simp, he, Level.stops_of_closes (.inl hd) _ _, .cons hstart hrep⟩
  | _ => cases hf

theorem stops_of_repeated {us ws rest : List Token} {es : List Expr}
    (hstop : Level.assignment.Stops us (ws ++ rest))
    (h : Repeated (Started startsComma NextArgument) rest es ws) : Level.assignment.Stops (us ++ ws) rest := by
  induction h generalizing us with
  | nil => simpa using hstop
  | cons hv _ ih =>
    obtain ⟨⟨c, ts, rfl, hw⟩, -⟩ := hv
    rw [← List.append_assoc]
    refine ih ?_
    rw [List.append_cons, Level.stops_append hw.1.ne_nil]
    exact hw.2

theorem reads_argumentList (hs : Exact Level.assignment.Whole sub) {ts : List Token} {h : ts.length < n}
    {es : List Expr} {rest : List Token} :
    Reads (argumentList stop sub ts h) es rest ↔
      ∃ us, ts = us ++ rest ∧ es ≠ [] ∧ Derives (.arguments es) us ∧ Level.assignment.Stops us rest ∧
        ∀ t, rest.head? = some t → startsComma t = false := by
  simp only [argumentList, reads_bind_phrase, reads_bind_phrases, reads_pure,
    readsMany_iff (nextArgument_exact hs)]
  constructor
  · intro h
    obtain ⟨e, mid, _, he, es, _, _, ⟨ws, rfl, hrep, hcomma⟩, rfl, rfl⟩ := h
    obtain ⟨us, rfl, he, hstop⟩ := (hs _ _ _ _).1 he
    exact ⟨us ++ ws, by simp, by simp, derives_arguments he hrep, stops_of_repeated hstop hrep, hcomma⟩
  · intro h
    obtain ⟨us, hts, hne, hd, hstop, hcomma⟩ := h
    obtain ⟨e, es, rfl⟩ := List.exists_cons_of_ne_nil hne
    obtain ⟨ts', ws, rfl, he, hstop, hrep⟩ := repeated_of_arguments hd hstop
    have hr := (hs ts h e (ws ++ rest)).2 ⟨ts', by simpa using hts, he, hstop⟩
    exact ⟨e, _, hr.lt, hr, es, rest, by simp, ⟨ws, rfl, hrep, hcomma⟩, rfl, rfl⟩

theorem arguments_exact (hs : Exact Level.assignment.Whole sub) :
    Exact (P := (·.length ≤ n)) (fun (v : List Expr × Span) us _ => ∃ o ts c, us = o :: (ts ++ [c]) ∧
      o.kind = .openParen ∧ Derives (.arguments v.1) ts ∧ c.kind = .closeParen ∧ v.2 = o.span.merge c.span)
      (arguments stop sub) := by
  intro ts h v rest
  simp only [arguments, reads_bind_phrase, reads_token]
  constructor
  · intro h
    obtain ⟨o, mid, hlt, ⟨rfl, ho⟩, hr⟩ := h
    split at hr
    · next close hclose =>
      obtain ⟨c, us, _⟩ := close
      obtain ⟨rfl, hc⟩ := accept_eq_some.1 hclose
      obtain ⟨rfl, rfl⟩ := (reads_pure _ _ _).1 hr
      exact ⟨[o, c], rfl, o, [], c, rfl, ho, .noArguments, hc, rfl⟩
    · next hnone =>
      simp only [reads_bind_phrase, reads_token, reads_pure, Phrase.upTo] at hr
      obtain ⟨es, _, _, hr, c, _, _, ⟨rfl, hc⟩, rfl, rfl⟩ := hr
      obtain ⟨us, rfl, -, hd, -⟩ := (reads_argumentList hs).1 hr
      exact ⟨o :: (us ++ [c]), by simp, o, us, c, rfl, ho, hd, hc, rfl⟩
  · intro h
    obtain ⟨_, hts, o, us, c, rfl, ho, hd, hc, hv⟩ := h
    obtain rfl : ts = o :: (us ++ c :: rest) := by simpa using hts
    obtain ⟨es, span⟩ := v
    obtain rfl : span = o.span.merge c.span := hv
    refine ⟨o, us ++ c :: rest, by simp, ⟨rfl, ho⟩, ?_⟩
    cases es with
    | nil =>
      cases hd
      simp [accept, hc, Phrase.upTo]
    | cons e es =>
      have hnone : accept .closeParen (us ++ c :: rest) = none := by
        have hcl : closes c := by simp [closes, hc]
        obtain ⟨ts, ws, rfl, he, -⟩ := repeated_of_arguments hd (Level.stops_of_closes hcl us rest)
        obtain ⟨t, ht, hk⟩ := he.head
        rw [accept_eq_none]
        simp only [List.append_assoc, List.head?_append, ht, Option.some_or, Option.some.injEq, forall_eq']
        intro hcp
        simp [hcp] at hk
      have hlt : (us ++ c :: rest).length < n := Nat.lt_of_lt_of_le (Nat.lt_succ_self _) h
      have hr : Reads (argumentList stop sub (us ++ c :: rest) hlt) (e :: es) (c :: rest) :=
        (reads_argumentList hs).2 ⟨us, rfl, by simp, hd, Level.stops_of_closes (by simp [closes, hc]) us rest,
          by simp [hc]⟩
      rw [hnone]
      simp only [reads_bind_phrase, reads_token, reads_pure, Phrase.upTo]
      exact ⟨e :: es, _, hr.lt, hr, c, rest, by simp, ⟨rfl, hc⟩, rfl, rfl⟩

/-! ## Suffixes -/

inductive Suffix.Spelled : Suffix → List Token → Prop
  | field {d n} : d.kind = .dot → n.kind = .identifier → Spelled (.field n) [d, n]
  | index {o key us c} : o.kind = .openBracket → Derives (.expr .assignment key) us → c.kind = .closeBracket →
      Spelled (.index key c.span) (o :: (us ++ [c]))
  | call {o es us c} : o.kind = .openParen → Derives (.arguments es) us → c.kind = .closeParen →
      Spelled (.call es (o.span.merge c.span)) (o :: (us ++ [c]))

theorem Suffix.Spelled.startsSuffix {s : Suffix} {us : List Token} (h : s.Spelled us) :
    ∃ t, us.head? = some t ∧ startsSuffix t = true := by
  cases h with
  | field hd => exact ⟨_, rfl, by simp [Grammar.startsSuffix, hd]⟩
  | index ho => exact ⟨_, rfl, by simp [Grammar.startsSuffix, ho]⟩
  | call ho => exact ⟨_, rfl, by simp [Grammar.startsSuffix, ho]⟩

theorem Suffix.Spelled.derives {s : Suffix} {us ts : List Token} {e : Expr} (h : s.Spelled us)
    (he : Derives (.expr .postfixed e) ts) : Derives (.expr .postfixed (s.apply e)) (ts ++ us) := by
  cases h with
  | field hd hn => exact .field he hd hn
  | index ho hk hc => exact .index he ho hk hc
  | call ho ha hc => exact .call he ho ha hc

theorem suffix_exact (hs : Exact Level.assignment.Whole sub) :
    Exact (fun s us _ => s.Spelled us) (suffix stop sub) := by
  intro ts h s rest
  constructor
  · intro hr
    cases ts with
    | nil => simp [suffix] at hr
    | cons t ts =>
      simp only [suffix] at hr
      split at hr
      · next hk =>
        simp only [reads_bind_phrase, reads_token, reads_pure, Phrase.behind] at hr
        obtain ⟨n, _, _, ⟨rfl, hn⟩, rfl, rfl⟩ := hr
        exact ⟨[t, n], rfl, .field hk hn⟩
      · split at hr
        · next hk =>
          simp only [reads_bind_phrase, reads_token, reads_pure, Phrase.behind, Phrase.upTo] at hr
          obtain ⟨key, _, _, hr, c, _, _, ⟨rfl, hc⟩, rfl, rfl⟩ := hr
          obtain ⟨us, rfl, hd⟩ := (reads_sub hs (by simp [closes, hc])).1 hr
          exact ⟨t :: (us ++ [c]), by simp, .index hk hd hc⟩
        · simp only [reads_bind_phrase, reads_pure, Phrase.map] at hr
          obtain ⟨⟨es, span⟩, _, _, hr, rfl, rfl⟩ := hr
          obtain ⟨_, hts, o, us, c, rfl, ho, hd, hc, hspan⟩ := (arguments_exact hs _ _ _ _).1 hr
          obtain rfl : span = o.span.merge c.span := hspan
          exact ⟨_, hts, .call ho hd hc⟩
  · intro h
    obtain ⟨_, hts, hsp⟩ := h
    cases hsp with
    | @field d n hd hn =>
      obtain rfl : ts = d :: n :: rest := hts
      simp only [suffix, hd, if_true, reads_bind_phrase, reads_token, reads_pure, Phrase.behind]
      exact ⟨n, rest, by simp, ⟨rfl, hn⟩, rfl, rfl⟩
    | @index o key us c ho hd hc =>
      obtain rfl : ts = o :: (us ++ c :: rest) := by simpa using hts
      have hr := (reads_sub hs (h := Nat.lt_of_succ_lt h) (by simp [closes, hc])).2 ⟨us, rfl, hd⟩
      simp only [suffix, ho, reduceCtorEq, if_false, if_true, reads_bind_phrase, reads_token, reads_pure,
        Phrase.behind, Phrase.upTo]
      exact ⟨key, _, hr.lt, hr, c, rest, by simp, ⟨rfl, hc⟩, rfl, rfl⟩
    | @call o es us c ho hd hc =>
      obtain rfl : ts = o :: (us ++ c :: rest) := by simpa using hts
      have hr : Reads (arguments stop sub (o :: (us ++ c :: rest)) (Nat.le_of_lt h))
          (es, o.span.merge c.span) rest :=
        (arguments_exact hs _ _ _ _).2 ⟨o :: (us ++ [c]), by simp, o, us, c, rfl, ho, hd, hc, rfl⟩
      simp only [suffix, ho, reduceCtorEq, if_false, reads_bind_phrase, reads_pure, Phrase.map]
      exact ⟨_, rest, hr.lt, hr, rfl, rfl⟩

abbrev SuffixAt : Suffix → List Token → List Token → Prop := Started startsSuffix fun s us _ => s.Spelled us

theorem derives_foldl_apply {e : Expr} {ts rest us : List Token} {ss : List Suffix}
    (he : Derives (.expr .postfixed e) ts) (h : Repeated SuffixAt rest ss us) :
    Derives (.expr .postfixed (ss.foldl Suffix.apply e)) (ts ++ us) := by
  induction h generalizing e ts with
  | nil => simpa using he
  | cons hs _ ih => simpa using ih (hs.1.derives he)

def Suffixed (e : Expr) (us : List Token) : Prop :=
  ∀ rest, ∃ first ts ss ws, us = ts ++ ws ∧ e = ss.foldl Suffix.apply first ∧
    Derives (.expr .primary first) ts ∧
    Repeated SuffixAt rest ss ws

theorem Suffixed.apply {e : Expr} {us vs : List Token} {s : Suffix} (h : Suffixed e us) (hs : s.Spelled vs) :
    Suffixed (s.apply e) (us ++ vs) := by
  intro rest
  obtain ⟨first, ts, ss, ws, rfl, rfl, hd, hrep⟩ := h (vs ++ rest)
  exact ⟨first, ts, ss ++ [s], ws ++ vs, by simp, by simp, hd, hrep.snoc ⟨hs, hs.startsSuffix⟩⟩

theorem suffixed_of_derives {e : Expr} {us : List Token} (h : Derives (.expr .postfixed e) us) :
    Suffixed e us := by
  generalize hf : Form.expr .postfixed e = f at h
  induction h generalizing e with
  | @tighter _ e ts _ hd =>
    cases hf
    exact fun rest => ⟨e, ts, [], [], by simp, rfl, hd, .nil⟩
  | field _ hd hn ih =>
    cases hf
    exact (ih rfl).apply (.field hd hn)
  | index _ ho hk hc ih =>
    cases hf
    exact (ih rfl).apply (.index ho hk hc)
  | call _ ho ha hc ih =>
    cases hf
    exact (ih rfl).apply (.call ho ha hc)
  | binary _ ho =>
    cases hf
    simp [Level.operators, Token.isOperator] at ho
  | _ => cases hf

theorem postfixed_exact (hs : Exact Level.assignment.Whole sub) :
    Exact (P := (·.length ≤ n)) Level.postfixed.Whole (postfixed stop sub) := by
  intro ts h e rest
  simp only [postfixed, reads_bind_phrase, reads_bind_phrases, reads_pure, primary_exact hs _ _ _ _,
    readsMany_iff (suffix_exact hs), Level.whole_iff (l := .postfixed) (by decide), Level.halts_postfixed,
    Level.whole_iff (l := .primary) (by decide), Level.halts_primary, and_true]
  constructor
  · intro h
    obtain ⟨first, _, _, ⟨us, rfl, hd⟩, ss, _, _, ⟨ws, rfl, hrep, hstop⟩, rfl, rfl⟩ := h
    exact ⟨us ++ ws, by simp, derives_foldl_apply (.tighter (by decide) hd) hrep, hstop⟩
  · intro h
    obtain ⟨us, rfl, hd, hstop⟩ := h
    obtain ⟨first, ts, ss, ws, rfl, rfl, hd, hrep⟩ := suffixed_of_derives hd rest
    have := List.length_pos_iff.2 hd.ne_nil
    exact ⟨first, ws ++ rest, by simp; omega, ⟨ts, by simp, hd⟩, ss, rest, by simp, ⟨ws, rfl, hrep, hstop⟩,
      rfl, rfl⟩

/-! ## Operators -/

namespace Level

theorem goesOn_operator {l m : Level} {t : Token} (ht : t.isOperator l.operators) (hm : l.rank < m.rank) :
    m.goesOn t = false := by
  have hk : t.kind = .operator := by
    simp only [Token.isOperator, Bool.and_eq_true, decide_eq_true_eq] at ht
    exact ht.1
  cases l <;> cases m <;> simp_all [operators, Token.isOperator, goesOn, startsSuffix, rank]
  rcases ht with h | h
  · simp [h]
  · simp [h]

/-- A level stops where the tighter level does and none of its operators follows. -/
theorem halts_iff {l : Level} (hl : l = .additive ∨ l = .multiplicative) {rest : List Token} :
    l.Halts rest ↔ l.tighter.Halts rest ∧ ∀ t, rest.head? = some t → t.isOperator l.operators = false := by
  simp only [Halts, ← forall_and]
  refine forall_congr' fun t => ?_
  rcases hl with rfl | rfl
  · grind [goesOn, rank, tighter]
  · grind [goesOn, rank, tighter]

end Level

def Operand (l : Level) (v : String × Expr) (us rest : List Token) : Prop :=
  ∃ o ts, us = o :: ts ∧ v.1 = o.text ∧ l.tighter.Whole v.2 ts rest

abbrev OperandAt (l : Level) : String × Expr → List Token → List Token → Prop :=
  Started (·.isOperator l.operators) (Operand l)

section
variable {l : Level} {inner : ∀ ts : List Token, ts.length ≤ n → Reading Expr ts.length}

theorem operand_exact (hi : Exact l.tighter.Whole inner) : Exact (Operand l) (operand stop inner) := by
  intro ts h v rest
  constructor
  · intro hr
    cases ts with
    | nil => simp [operand] at hr
    | cons o ts =>
      simp only [operand, reads_bind_phrase, reads_pure, Phrase.behind] at hr
      obtain ⟨_, _, _, hr, rfl, rfl⟩ := hr
      obtain ⟨us, rfl, hw⟩ := (hi _ _ _ _).1 hr
      exact ⟨o :: us, rfl, o, us, rfl, rfl, hw⟩
  · intro h
    obtain ⟨_, hts, o, us, rfl, hv, hw⟩ := h
    obtain rfl : ts = o :: (us ++ rest) := hts
    obtain ⟨op, right⟩ := v
    obtain rfl : op = o.text := hv
    simp only [operand, reads_bind_phrase, reads_pure, Phrase.behind]
    have hr := (hi (us ++ rest) (Nat.le_of_lt (Nat.lt_of_succ_lt h)) right rest).2 ⟨us, rfl, hw⟩
    exact ⟨right, rest, hr.lt, hr, rfl, rfl⟩

theorem derives_foldl_joined {first : Expr} {ts rest us : List Token} {vs : List (String × Expr)}
    (hd : Derives (.expr l first) ts) (h : Repeated (OperandAt l) rest vs us) :
    Derives (.expr l (vs.foldl joined first)) (ts ++ us) := by
  induction h generalizing first ts with
  | nil => simpa using hd
  | @cons v _ _ _ hv _ ih =>
    obtain ⟨⟨o, us, rfl, ho, hw, -⟩, t, ht, hop⟩ := hv
    obtain rfl : o = t := by simpa using ht
    obtain ⟨op, right⟩ := v
    obtain rfl : op = o.text := ho
    simpa [joined] using ih (.binary hd hop hw)

theorem halts_of_repeated (hl : 2 ≤ l.tighter.rank) {us rest : List Token} {vs : List (String × Expr)}
    (hh : l.tighter.Halts (us ++ rest)) (h : Repeated (OperandAt l) rest vs us) : l.tighter.Halts rest := by
  induction h with
  | nil => simpa using hh
  | cons hv _ ih =>
    obtain ⟨⟨_, _, _, _, hw⟩, _⟩ := hv
    exact ih ((Level.whole_iff hl).1 hw).2

/-- The operands of a phrase, from the leftmost on, if what follows cannot continue the
last one. -/
theorem operands_of_derives (hl : l = .additive ∨ l = .multiplicative) {e : Expr} {us rest : List Token}
    (h : Derives (.expr l e) us) (hstop : l.tighter.Halts rest) :
    ∃ first ts vs ws, us = ts ++ ws ∧ e = vs.foldl joined first ∧ Derives (.expr l.tighter first) ts ∧
      l.tighter.Halts (ws ++ rest) ∧ Repeated (OperandAt l) rest vs ws := by
  have hrank : 2 ≤ l.tighter.rank ∧ l.rank < l.tighter.rank := by rcases hl with rfl | rfl <;> decide
  generalize hf : Form.expr l e = f at h
  induction h generalizing e rest with
  | @tighter m e ts _ hd =>
    cases hf
    exact ⟨e, ts, [], [], by simp, rfl, hd, by simpa using hstop, .nil⟩
  | @binary m left ts op right us _ hop hright ih =>
    cases hf
    have hnext : l.tighter.Halts (op :: us ++ rest) := Level.halts_cons.2 (Level.goesOn_operator hop hrank.2)
    obtain ⟨first, ts', vs, ws, rfl, rfl, hd, hh, hrep⟩ := ih hnext rfl
    have hv : OperandAt l (op.text, right) (op :: us) rest :=
      ⟨⟨op, us, rfl, rfl, (Level.whole_iff hrank.1).2 ⟨hright, hstop⟩⟩, op, rfl, hop⟩
    exact ⟨first, ts', vs ++ [(op.text, right)], ws ++ op :: us, by simp, by simp [joined],
      hd, by simpa using hh,
      hrep.snoc hv⟩
  | name | string | number | group | field | index | call | object | assign =>
    cases hf
    simp at hl
  | _ => cases hf

theorem chain_exact (hl : l = .additive ∨ l = .multiplicative) (hi : Exact l.tighter.Whole inner) :
    Exact (P := (·.length ≤ n)) l.Whole (chain stop l.operators inner) := by
  have hrank : 2 ≤ l.rank ∧ 2 ≤ l.tighter.rank ∧ l ≠ .primary := by rcases hl with rfl | rfl <;> decide
  intro ts h e rest
  simp only [chain, reads_bind_phrase, reads_bind_phrases, reads_pure, hi _ _ _ _,
    readsMany_iff (operand_exact hi),
    Level.whole_iff hrank.1, Level.whole_iff hrank.2.1, Level.halts_iff hl]
  constructor
  · intro h
    obtain ⟨first, _, _, ⟨us, rfl, hd, hh⟩, vs, _, _, ⟨ws, rfl, hrep, hstop⟩, rfl, rfl⟩ := h
    have hd' := derives_foldl_joined (.tighter hrank.2.2 hd) hrep
    exact ⟨us ++ ws, by simp, hd', halts_of_repeated hrank.2.1 hh hrep, hstop⟩
  · intro h
    obtain ⟨us, rfl, hd, hh, hstop⟩ := h
    obtain ⟨first, ts, vs, ws, rfl, rfl, hd, hh', hrep⟩ := operands_of_derives hl hd hh
    have := List.length_pos_iff.2 hd.ne_nil
    exact ⟨first, ws ++ rest, by simp; omega, ⟨ts, by simp, hd, hh'⟩, vs, rest, by simp,
      ⟨ws, rfl, hrep, hstop⟩,
      rfl, rfl⟩

end

theorem multiplicative_exact (hs : Exact Level.assignment.Whole sub) :
    Exact (P := (·.length ≤ n)) Level.multiplicative.Whole (multiplicative stop sub) :=
  chain_exact (l := .multiplicative) (.inr rfl) (postfixed_exact hs)

theorem additive_exact (hs : Exact Level.assignment.Whole sub) :
    Exact (P := (·.length ≤ n)) Level.additive.Whole (additive stop sub) :=
  chain_exact (l := .additive) (.inl rfl) (multiplicative_exact hs)

/-! ## Objects -/

def EntryAt (e : Entry) (us rest : List Token) : Prop :=
  (∃ ts c, us = ts ++ [c] ∧ Derives (.entry e) ts ∧ c.kind = .comma) ∨
    Derives (.entry e) us ∧ ∃ t, rest.head? = some t ∧ t.kind = .closeBrace

theorem entryValue_reads (hs : Exact Level.assignment.Whole sub) {key : Token} {ts : List Token}
    {h : ts.length < n} {e : Entry} {rest : List Token} :
    Reads (entryValue stop sub key ts h) e rest ↔
      ∃ v us, Derives (.expr .assignment v) us ∧ e = .pair (key.span.merge v.span) key.text v ∧
        ∃ c, ts = us ++ c :: rest ∧ c.kind = .comma ∨
          ts = us ++ rest ∧ rest.head? = some c ∧ c.kind = .closeBrace := by
  simp only [entryValue, reads_bind_phrase]
  constructor
  · intro h
    obtain ⟨v, _, _, hr, hw⟩ := h
    split at hw
    · next hclose =>
      obtain ⟨rfl, rfl⟩ := (reads_pure _ _ _).1 hw
      obtain ⟨us, rfl, hd, -⟩ := (hs _ _ _ _).1 hr
      obtain ⟨c, hc⟩ := startsWith_eq_true.1 hclose
      exact ⟨v, us, hd, rfl, c, .inr ⟨rfl, hc⟩⟩
    · simp only [reads_bind_phrase, reads_token, reads_pure, Phrase.upTo] at hw
      obtain ⟨c, _, _, ⟨rfl, hc⟩, rfl, rfl⟩ := hw
      obtain ⟨us, rfl, hd⟩ := (reads_sub hs (.inl hc)).1 hr
      exact ⟨v, us, hd, rfl, c, .inl ⟨rfl, hc⟩⟩
  · intro h
    obtain ⟨v, us, hd, rfl, c, ⟨rfl, hc⟩ | ⟨rfl, hh, hc⟩⟩ := h
    · have hr := (reads_sub hs (h := h) (.inl hc)).2 ⟨us, rfl, hd⟩
      have hne : startsWith .closeBrace (c :: rest) = false := by simp [startsWith, hc]
      refine ⟨v, _, hr.lt, hr, ?_⟩
      simp only [hne, Bool.false_eq_true, if_false, reads_bind_phrase, reads_token, reads_pure, Phrase.upTo]
      exact ⟨c, rest, by simp, ⟨rfl, hc⟩, trivial, rfl⟩
    · obtain ⟨rest, rfl⟩ := List.head?_eq_some_iff.1 hh
      have hr := (reads_sub hs (h := h) (by simp [closes, hc])).2 ⟨us, rfl, hd⟩
      have hcl : startsWith .closeBrace (c :: rest) = true := by simp [startsWith, hc]
      refine ⟨v, _, hr.lt, hr, ?_⟩
      simp [hcl, Phrase.map]

theorem reads_entry_pair {k d : Token} {ts : List Token} {h : (k :: d :: ts).length < n} {e : Entry}
    {rest : List Token} (hk : k.kind = .identifier) (hd : d.kind = .colon)
    (hr : Reads (entryValue stop sub k ts (Nat.lt_of_succ_lt (Nat.lt_of_succ_lt h))) e rest) :
    Reads (entry stop sub (k :: d :: ts) h) e rest := by
  simp only [entry, reads_bind_phrase, reads_token]
  refine ⟨k, _, by simp, ⟨rfl, hk⟩, ?_⟩
  simp only [accept, hd, reduceCtorEq, if_false, startsWith, decide_false, Bool.false_eq_true,
    reads_bind_phrase,
    reads_token, reads_pure, Phrase.upTo]
  exact ⟨d, _, by simp, ⟨rfl, hd⟩, _, _, hr.lt, hr, rfl, rfl⟩

theorem entry_exact (hs : Exact Level.assignment.Whole sub) : Exact EntryAt (entry stop sub) := by
  intro ts h e rest
  constructor
  · intro hr
    simp only [entry, reads_bind_phrase, reads_token] at hr
    obtain ⟨k, _, _, ⟨rfl, hk⟩, hr⟩ := hr
    split at hr
    · next p hp =>
      obtain ⟨c, us, _⟩ := p
      obtain ⟨rfl, hc⟩ := accept_eq_some.1 hp
      obtain ⟨rfl, rfl⟩ := (reads_pure _ _ _).1 hr
      exact ⟨[k, c], rfl, .inl ⟨[k], c, rfl, .shorthand hk, hc⟩⟩
    · split at hr
      · next hclose =>
        obtain ⟨rfl, rfl⟩ := (reads_pure _ _ _).1 hr
        exact ⟨[k], rfl, .inr ⟨.shorthand hk, startsWith_eq_true.1 hclose⟩⟩
      · simp only [reads_bind_phrase, reads_token, reads_pure, Phrase.upTo, entryValue_reads hs] at hr
        obtain ⟨c, _, _, ⟨rfl, hc⟩, _, _, _, ⟨v, us, hd, rfl, d, hrest⟩, rfl, rfl⟩ := hr
        rcases hrest with ⟨rfl, hd'⟩ | ⟨rfl, hd'⟩
        · exact ⟨k :: c :: us ++ [d], by simp, .inl ⟨k :: c :: us, d, rfl, .pair hk hc hd, hd'⟩⟩
        · exact ⟨k :: c :: us, rfl, .inr ⟨.pair hk hc hd, d, hd'⟩⟩
  · intro h
    obtain ⟨us, hts, ⟨ws, c, rfl, hd, hc⟩ | ⟨hd, c, hh, hc⟩⟩ := h
    · cases hd with
      | @shorthand k hk =>
        obtain rfl : ts = k :: c :: rest := hts
        simp only [entry, reads_bind_phrase, reads_token]
        exact ⟨k, _, by simp, ⟨rfl, hk⟩, by simp [accept, hc, Phrase.upTo]⟩
      | @pair k d v us hk hd hv =>
        obtain rfl : ts = k :: d :: (us ++ c :: rest) := by simpa using hts
        exact reads_entry_pair hk hd ((entryValue_reads hs).2 ⟨v, us, hv, rfl, c, .inl ⟨rfl, hc⟩⟩)
    · cases hd with
      | @shorthand k hk =>
        obtain ⟨rest, rfl⟩ := List.head?_eq_some_iff.1 hh
        obtain rfl : ts = k :: c :: rest := hts
        simp only [entry, reads_bind_phrase, reads_token]
        exact ⟨k, _, by simp, ⟨rfl, hk⟩, by simp [accept, startsWith, hc, Phrase.map]⟩
      | @pair k d v us hk hd hv =>
        obtain rfl : ts = k :: d :: (us ++ rest) := hts
        exact reads_entry_pair hk hd ((entryValue_reads hs).2 ⟨v, us, hv, rfl, c, .inr ⟨rfl, hh, hc⟩⟩)

abbrev startsEntry (t : Token) : Bool := t.kind ≠ .closeBrace

theorem derives_entries {rest us : List Token} {es : List Entry}
    (h : Repeated (Started startsEntry EntryAt) rest es us) :
    Derives (.entries es) us := by
  induction h with
  | nil => exact .noEntries
  | @cons e es us ws he hrep ih =>
    rcases he.1 with ⟨ts, d, rfl, hd, hk⟩ | ⟨hd, t, ht, hk⟩
    · simpa using Derives.nextEntry hd hk ih
    · -- an entry without a comma stands before the brace
      obtain ⟨rfl, rfl⟩ := hrep.head_starts ht (by simp [hk])
      simpa using Derives.lastEntry hd

theorem startsEntry_head {e : Entry} {us : List Token} (h : Derives (.entry e) us) (vs : List Token) :
    ∃ t, (us ++ vs).head? = some t ∧ startsEntry t = true := by
  cases h with
  | shorthand hk => exact ⟨_, rfl, by simp [hk]⟩
  | pair hk => exact ⟨_, rfl, by simp [hk]⟩

theorem repeated_of_entries {c : Token} {us : List Token} {es : List Entry} (hc : c.kind = .closeBrace)
    (rest : List Token) (h : Derives (.entries es) us) :
    Repeated (Started startsEntry EntryAt) (c :: rest) es us := by
  generalize hf : Form.entries es = f at h
  induction h generalizing es with
  | noEntries =>
    cases hf
    exact .nil
  | @lastEntry e ts he =>
    cases hf
    have hstart : Started startsEntry EntryAt e (ts ++ []) ([] ++ c :: rest) :=
      ⟨.inr ⟨by simpa using he, c, rfl, hc⟩, startsEntry_head he []⟩
    simpa using Repeated.cons hstart .nil
  | @nextEntry e ts d es us he hd _ _ ih =>
    cases hf
    have hstart : Started startsEntry EntryAt e (ts ++ [d]) (us ++ c :: rest) :=
      ⟨.inl ⟨ts, d, rfl, he, hd⟩, startsEntry_head he [d]⟩
    simpa using Repeated.cons hstart (ih rfl)
  | _ => cases hf

theorem object_exact (hs : Exact Level.assignment.Whole sub) :
    Exact (P := (·.length ≤ n)) Level.object.Whole (object stop sub) := by
  intro ts h e rest
  have hup {us : List Token} (hw : Level.additive.Whole e us rest) : Level.object.Whole e us rest :=
    ⟨.tighter (by decide) hw.1, .inr ((Level.whole_iff (by decide)).1 hw).2, by simp⟩
  constructor
  · intro hr
    cases ts with
    | nil =>
      obtain ⟨us, hus, hw⟩ := (additive_exact hs _ _ _ _).1 hr
      exact ⟨us, hus, hup hw⟩
    | cons t ts =>
      rw [object] at hr
      split at hr
      · next hk =>
        simp only [reads_bind_phrase, reads_bind_phrases, reads_token, reads_pure,
          readsMany_iff (entry_exact hs)] at hr
        obtain ⟨es, _, _, ⟨us, rfl, hrep, -⟩, c, _, _, ⟨rfl, hc⟩, rfl, rfl⟩ := hr
        refine ⟨t :: (us ++ [c]), by simp, .object hk (derives_entries hrep) hc, .inl ?_, by simp⟩
        simp [endsInBrace_cons, hc]
      · obtain ⟨us, hus, hw⟩ := (additive_exact hs _ _ _ _).1 hr
        exact ⟨us, hus, hup hw⟩
  · intro h
    obtain ⟨us, hts, hd, hstop, -⟩ := h
    cases hd with
    | @tighter _ _ _ _ hd =>
      have hh : Level.additive.Halts rest :=
        hstop.resolve_left (by simp [hd.endsInBrace_eq_false (l := .additive) (by decide)])
      have hr : Reads (additive stop sub ts h) e rest :=
        (additive_exact hs _ _ _ _).2 ⟨us, hts, (Level.whole_iff (by decide)).2 ⟨hd, hh⟩⟩
      obtain ⟨t, ht, hk⟩ := hd.head
      obtain ⟨us, rfl⟩ := List.head?_eq_some_iff.1 ht
      obtain rfl : ts = t :: (us ++ rest) := hts
      have hne : t.kind ≠ .openBrace := by
        intro hb
        simp [hb, Level.rank, Level.tighter] at hk
      rw [object, if_neg hne]
      exact hr
    | @object o es us c ho hd hc =>
      obtain rfl : ts = o :: (us ++ c :: rest) := by simpa using hts
      rw [object, if_pos ho]
      simp only [reads_bind_phrase, reads_bind_phrases, reads_token, reads_pure,
        readsMany_iff (entry_exact hs)]
      exact ⟨es, c :: rest, by simp, ⟨us, rfl, repeated_of_entries hc rest hd, by simp [hc]⟩, c,
        rest, by simp,
        ⟨rfl, hc⟩, rfl, rfl⟩
    | binary _ ho => simp [Level.operators, Token.isOperator] at ho

/-! ## Assignment -/

theorem assignment_exact (hs : Exact Level.assignment.Whole sub) :
    Exact (P := (·.length ≤ n)) Level.assignment.Whole (assignment stop sub) := by
  intro ts h e rest
  simp only [assignment, reads_bind_phrase]
  constructor
  · intro h
    obtain ⟨target, _, _, ht, hr⟩ := h
    obtain ⟨us, rfl, hd, hstop, -⟩ := (object_exact hs _ _ _ _).1 ht
    split at hr
    · next hn =>
      obtain ⟨rfl, rfl⟩ := (reads_pure _ _ _).1 hr
      exact ⟨us, rfl, .tighter (by decide) hd, hstop, fun _ => accept_eq_none.1 hn⟩
    · next p hp =>
      obtain ⟨q, ws, _⟩ := p
      obtain ⟨rfl, hq⟩ := accept_eq_some.1 hp
      simp only [reads_bind_phrase, reads_pure, Phrase.upTo] at hr
      obtain ⟨value, _, _, hv, rfl, rfl⟩ := hr
      obtain ⟨vs, rfl, hd', hstop'⟩ := (hs _ _ _ _).1 hv
      refine ⟨us ++ q :: vs, by simp, .assign hd hq hd', ?_⟩
      rw [List.append_cons, Level.stops_append hd'.ne_nil]
      exact hstop'
  · intro h
    obtain ⟨us, hts, hd, hstop, hne⟩ := h
    cases hd with
    | @tighter _ _ _ _ hd =>
      have ht : Reads (object stop sub ts h) e rest :=
        (object_exact hs _ _ _ _).2 ⟨us, hts, hd, hstop, by simp⟩
      exact ⟨e, rest, ht.lt, ht, by simp [accept_eq_none.2 (hne rfl)]⟩
    | @assign target us q value vs hd hq hd' =>
      obtain rfl : ts = us ++ q :: (vs ++ rest) := by simpa using hts
      have hh : Level.object.Stops us (q :: (vs ++ rest)) :=
        ⟨.inr (Level.halts_cons.2 (by apply Level.goesOn_eq_false <;> simp [hq])), by simp⟩
      have ht : Reads (object stop sub (us ++ q :: (vs ++ rest)) h) target (q :: (vs ++ rest)) :=
        (object_exact hs _ _ _ _).2 ⟨us, rfl, hd, hh⟩
      have hlt : (vs ++ rest).length < n := Nat.lt_of_lt_of_le (Nat.lt_trans (Nat.lt_succ_self _) ht.lt) h
      have hw : Level.assignment.Stops vs rest := by
        rw [← Level.stops_append hd'.ne_nil (us ++ [q]), ← List.append_cons]
        exact ⟨hstop, hne⟩
      have hv : Reads (sub (vs ++ rest) hlt) value rest := (hs _ _ _ _).2 ⟨vs, rfl, hd', hw⟩
      refine ⟨target, _, ht.lt, ht, ?_⟩
      simp only [accept, hq, if_true, reads_bind_phrase, reads_pure, Phrase.upTo]
      exact ⟨value, rest, hv.lt, hv, rfl, rfl⟩
    | binary _ ho => simp [Level.operators, Token.isOperator] at ho

/-- A whole expression is read up to the first place where it can stop. -/
theorem expression_exact (ts : List Token) (e : Expr) (rest : List Token) :
    Reads (expression stop ts) e rest ↔ ∃ us, ts = us ++ rest ∧ Level.assignment.Whole e us rest := by
  obtain ⟨k, hk⟩ : ∃ k, ts.length = k := ⟨_, rfl⟩
  induction k using Nat.strongRecOn generalizing ts e rest with
  | ind k ih =>
  subst hk
  have hs : Exact Level.assignment.Whole fun us (_ : us.length < ts.length) => expression stop us :=
    fun us h v r => ih _ h us v r rfl
  rw [expression]
  exact assignment_exact hs ts (Nat.le_refl _) e rest

theorem expressions_exact (n : Nat) :
    Exact Level.assignment.Whole fun us (_ : us.length < n) => expression stop us :=
  fun us _ e rest => expression_exact us e rest

end RavenLang.Grammar
