import RavenLang.Proofs.Grammar.Nesting
import RavenLang.Proofs.Grammar.Texts
import RavenLang.Proofs.Token.Stopped
import RavenLang.Shell.Input

/-!
# Programs are complete

The shell hands over every program that has no block comments, and every other one whose block
comments it passes over unawares.
-/

namespace RavenLang.Shell

/-! ## Parts of a text -/

/-- The brackets that are open behind a character of code, if it does not close one that does not
match. -/
def bracketsBehind (opened : List Char) (c : Char) : Option (List Char) :=
  if isOpening c then some (c :: opened)
  else if isClosing c then
    match opened with
    | opening :: others => if isPair opening c then some others else none
    | [] => none
  else some opened

def step (context : Context) (opened : List Char) (c : Char) (rest : List Char) :
    Option (Context × List Char) :=
  match context with
  | .lineComment => some (if c = '\n' then .code else .lineComment, opened)
  | .string => some (if c = '"' then .code else .string, opened)
  | .code =>
    if c = '"' then some (.string, opened)
    else if c = '/' ∧ rest.head? = some '/' then some (.lineComment, opened)
    else (bracketsBehind opened c).map (.code, ·)

/-- What is open behind a text that is followed by `rest`. -/
def behind (context : Context) (opened : List Char) : List Char → List Char → Option (Context × List Char)
  | [], _ => some (context, opened)
  | c :: cs, rest => (step context opened c (cs ++ rest)).bind fun s => behind s.1 s.2 cs rest

section
variable {context context' : Context} {opened opened' us rest rest' : List Char} {c : Char} {o : Nat}

theorem judgeFrom_cons (context : Context) (opened : List Char) (o : Nat) (c : Char) (cs : List Char) :
    judgeFrom context opened o (c :: cs) =
      match step context opened c cs with
      | some s => judgeFrom s.1 s.2 (o + c.utf8Size) cs
      | none => .unmatched c o := by
  rw [judgeFrom.eq_def]
  cases context with
  | lineComment | string => rfl
  | code =>
    simp only [step, bracketsBehind]
    split
    · rfl
    · split
      · rfl
      · split
        · rfl
        · split
          · cases opened with
            | nil => rfl
            | cons opening others => dsimp only; split <;> rfl
          · rfl

/-- The judgement goes on with what is open. -/
theorem judgeFrom_append (h : behind context opened us rest = some (context', opened')) :
    judgeFrom context opened o (us ++ rest) = judgeFrom context' opened' (o + Text.size us) rest := by
  induction us generalizing context opened o with
  | nil =>
    cases h
    rfl
  | cons c us ih =>
    obtain ⟨s, hs, h⟩ := Option.bind_eq_some_iff.1 h
    rw [List.cons_append, judgeFrom_cons, hs, Text.size_cons, ← Nat.add_assoc]
    exact ih h

theorem judgeFrom_eq_complete :
    judgeFrom context opened o us = .complete ↔
      ∃ context', behind context opened us [] = some (context', []) ∧ context' ≠ .string := by
  induction us generalizing context opened o with
  | nil => simp [judgeFrom, behind, and_comm]
  | cons c us ih =>
    rw [judgeFrom_cons, behind, List.append_nil]
    cases step context opened c us with
    | none => simp
    | some s => exact ih

theorem bracketsBehind_outside (h : bracketsBehind opened c = some opened') (outside : List Char) :
    bracketsBehind (opened ++ outside) c = some (opened' ++ outside) := by
  rw [bracketsBehind.eq_def] at h ⊢
  split at h
  · next ho =>
    cases h
    rw [if_pos ho]
    rfl
  · next ho =>
    rw [if_neg ho]
    split at h
    · next hc =>
      rw [if_pos hc]
      cases opened with
      | nil => cases h
      | cons opening others =>
        simp only [Option.ite_none_right_eq_some, Option.some.injEq] at h
        obtain ⟨hp, rfl⟩ := h
        exact if_pos hp
    · next hc =>
      cases h
      exact if_neg hc

/-- Brackets that are open outside stay open. -/
theorem step_outside (h : step context opened c rest = some (context', opened')) (outside : List Char) :
    step context (opened ++ outside) c rest = some (context', opened' ++ outside) := by
  cases context with
  | lineComment | string =>
    cases h
    rfl
  | code =>
    simp only [step] at h ⊢
    split at h
    · next hq =>
      cases h
      exact if_pos hq
    · next hq =>
      rw [if_neg hq]
      split at h
      · next hs =>
        cases h
        exact if_pos hs
      · next hs =>
        obtain ⟨os, ho, he⟩ := Option.map_eq_some_iff.1 h
        cases he
        rw [if_neg hs, bracketsBehind_outside ho]
        rfl

theorem behind_outside (h : behind context opened us rest = some (context', opened')) (outside : List Char) :
    behind context (opened ++ outside) us rest = some (context', opened' ++ outside) := by
  induction us generalizing context opened with
  | nil =>
    cases h
    rfl
  | cons c us ih =>
    obtain ⟨s, hs, h⟩ := Option.bind_eq_some_iff.1 h
    rw [behind, step_outside hs]
    exact ih h

theorem judgeFrom_closed (h : behind context [] us rest = some (context', [])) :
    judgeFrom context opened o (us ++ rest) = judgeFrom context' opened (o + Text.size us) rest :=
  judgeFrom_append (behind_outside h opened)

/-- Of what follows, it only matters whether a slash comes first. -/
theorem behind_congr (h : rest.head? = some '/' ↔ rest'.head? = some '/') :
    behind context opened us rest = behind context opened us rest' := by
  induction us generalizing context opened with
  | nil => rfl
  | cons c us ih =>
    have hstep : step context opened c (us ++ rest) = step context opened c (us ++ rest') := by
      cases us with
      | nil => simp only [step, List.nil_append, h]
      | cons => rfl
    rw [behind, behind, hstep]
    simp only [ih]

theorem behind_line (h : '\n' ∉ us) :
    behind .lineComment opened us rest = some (.lineComment, opened) := by
  induction us with
  | nil => rfl
  | cons c us ih =>
    simp only [List.mem_cons, not_or] at h
    rw [behind, step, if_neg (Ne.symm h.1)]
    exact ih h.2

theorem behind_string (h : '"' ∉ us) :
    behind .string opened (us ++ ['"']) rest = some (.code, opened) := by
  induction us with
  | nil => rfl
  | cons c us ih =>
    simp only [List.mem_cons, not_or] at h
    rw [List.cons_append, behind, step, if_neg (Ne.symm h.1)]
    exact ih h.2

/-- It does not matter whether a line that ends here is a comment. -/
theorem judgeFrom_lineEnd (h : ∀ c, rest.head? = some c → c = '\n') :
    judgeFrom .lineComment opened o rest = judgeFrom .code opened o rest := by
  cases rest with
  | nil => simp [judgeFrom]
  | cons c rest =>
    obtain rfl := h c rfl
    rfl

/-- Nor does it matter whether the rest of a line is one, if it is complete by itself. -/
theorem judgeFrom_restOfLine (hn : '\n' ∉ us) (hr : ∀ c, rest.head? = some c → c = '\n')
    (h : judge us = .complete) :
    judgeFrom .lineComment opened o (us ++ rest) = judgeFrom .code opened o (us ++ rest) := by
  obtain ⟨context, hb, hne⟩ := judgeFrom_eq_complete.1 h
  have hslash : ([] : List Char).head? = some '/' ↔ rest.head? = some '/' :=
    iff_of_false (by simp) fun hs => absurd (hr _ hs) (by decide)
  rw [behind_congr hslash] at hb
  rw [judgeFrom_append (behind_line hn), judgeFrom_closed hb]
  cases context with
  | lineComment => rfl
  | code => exact judgeFrom_lineEnd hr
  | string => exact absurd rfl hne

end

/-! ## Plain characters -/

def isPlain (c : Char) : Bool := c != '"' && !isOpening c && !isClosing c && c != '/'

theorem isPlain_of {p : Char → Bool} (hp : ['"', '(', '[', '\x7b', ')', ']', '\x7d', '/'].any p = false)
    {c : Char} (h : p c = true) : isPlain c = true := by
  have hne : ∀ d ∈ ['"', '(', '[', '\x7b', ')', ']', '\x7d', '/'], c ≠ d := by
    rintro d hd rfl
    exact absurd h (List.any_eq_false.1 hp c hd)
  simp only [List.forall_mem_cons] at hne
  simp [isPlain, isOpening, isClosing, hne]

theorem isPlain_of_isAlphanum {c : Char} (h : c.isAlphanum = true) : isPlain c = true :=
  isPlain_of (p := Char.isAlphanum) (by decide) h

theorem isPlain_of_isWhitespace {c : Char} (h : c.isWhitespace = true) : isPlain c = true :=
  isPlain_of (p := Char.isWhitespace) (by decide) h

theorem step_plain {c : Char} (h : isPlain c = true) (opened rest : List Char) :
    step .code opened c rest = some (.code, opened) := by
  simp only [isPlain, Bool.and_eq_true, bne_iff_ne, Bool.not_eq_true'] at h
  obtain ⟨⟨⟨hq, ho⟩, hc⟩, hs⟩ := h
  rw [step, if_neg hq, if_neg fun h => hs h.1, bracketsBehind.eq_def, ho, hc]
  rfl

theorem behind_plain {us : List Char} (h : ∀ c ∈ us, isPlain c = true) (opened rest : List Char) :
    behind .code opened us rest = some (.code, opened) := by
  induction us with
  | nil => rfl
  | cons c us ih =>
    rw [behind, step_plain (h c List.mem_cons_self)]
    exact ih fun d hd => h d (List.mem_cons_of_mem c hd)

/-! ## Block comments -/

/-- Nothing is open behind the text, or only a line comment, and then the rest of the line is complete by
itself. -/
def isPassedOver (us rest : List Char) : Bool :=
  match behind .code [] us rest with
  | some (.code, []) => true
  | some (.lineComment, []) => judge (rest.takeWhile (· != '\n')) = .complete
  | _ => false

/-- What follows is judged as if the text were not there. -/
theorem judgeFrom_passedOver {opened us rest : List Char} {o : Nat} (h : isPassedOver us rest = true) :
    judgeFrom .code opened o (us ++ rest) = judgeFrom .code opened (o + Text.size us) rest := by
  unfold isPassedOver at h
  split at h
  · next hb => exact judgeFrom_closed hb
  · next hb =>
    rw [judgeFrom_closed hb, ← List.takeWhile_append_dropWhile (p := (· != '\n')) (l := rest)]
    refine judgeFrom_restOfLine (fun hm => ?_) (fun c hc => ?_) (of_decide_eq_true h)
    · simpa using List.mem_takeWhile_imp hm
    · simpa using Lexeme.head?_dropWhile_eq_false hc
  · cases h

/-- The block comments of a text, each with what follows it. -/
def blockComments (cs : List Char) : List (List Char × List Char) :=
  match cs with
  | [] => []
  | c :: cs =>
    match Lexeme.next c cs with
    | .error _ => []
    | .ok l =>
      have := l.rest_length_lt
      if ['/', '*'].isPrefixOf l.taken then (l.taken, l.rest) :: blockComments l.rest
      else blockComments l.rest
termination_by cs.length
decreasing_by all_goals exact this

theorem blockComments_of_next {c : Char} {cs taken rest : List Char} {kind : Option TokenKind}
    (h : (Lexeme.next c cs).map Lexeme.cut = .ok (kind, taken, rest)) :
    blockComments (c :: cs) =
      if ['/', '*'].isPrefixOf taken then (taken, rest) :: blockComments rest else blockComments rest := by
  rw [blockComments]
  cases hn : Lexeme.next c cs with
  | error cause => simp [hn, Except.map] at h
  | ok l =>
    simp only [hn, Except.map, Except.ok.injEq, Lexeme.cut, Prod.mk.injEq] at h
    obtain ⟨-, rfl, rfl⟩ := h
    rfl

theorem isPrefixOf_of_isWhitespace {c : Char} (h : c.isWhitespace = true) (us : List Char) :
    ['/', '*'].isPrefixOf (c :: us) = false := by
  have hc : ('/' == c) = false := beq_false_of_ne (by rintro rfl; exact absurd h (by decide))
  rw [List.isPrefixOf, hc, Bool.false_and]

theorem blockComments_blank {c : Char} (h : c.isWhitespace = true) (cs : List Char) :
    blockComments (c :: cs) = blockComments cs := by
  rw [blockComments_of_next (Lexeme.next_blank h cs), isPrefixOf_of_isWhitespace h, if_neg (by simp)]
  cases cs with
  | nil => rfl
  | cons d cs =>
    cases hd : d.isWhitespace with
    | false => simp [hd]
    | true =>
      -- both sides go on behind the same run
      rw [blockComments_of_next (Lexeme.next_blank hd cs), isPrefixOf_of_isWhitespace hd, if_neg (by simp)]
      simp [hd]

theorem blockComments_cut {kind : Option TokenKind} {taken rest : List Char} (h : Cut kind taken rest) :
    blockComments (taken ++ rest) =
      if ['/', '*'].isPrefixOf taken then (taken, rest) :: blockComments rest else blockComments rest := by
  obtain ⟨c, us, rfl⟩ := List.exists_cons_of_ne_nil h.ne_nil
  cases hc : c.isWhitespace with
  | true =>
    obtain rfl := h.of_isWhitespace hc
    rw [isPrefixOf_of_isWhitespace hc, if_neg (by simp)]
    exact blockComments_blank hc rest
  | false => exact blockComments_of_next (h.next hc)

/-! ## Programs -/

theorem bracket?_of_isWord {kind : TokenKind} (h : kind.isWord = true) : kind.bracket? = none := by
  revert h
  cases kind <;> decide

theorem bracket?_of_mark {c : Char} {kind : TokenKind} (h : TokenKind.ofMark? c = some kind) :
    c ≠ '"' ∧ kind.bracket? = if isOpening c ∨ isClosing c then some c else none := by
  unfold TokenKind.ofMark? at h
  split at h <;> cases h <;> decide

theorem nest_mark {t : Token} {c : Char}
    (h : t.kind.bracket? = if isOpening c ∨ isClosing c then some c else none) (opened : List Char)
    (ts : List Token) :
    Grammar.nest opened (t :: ts) = (bracketsBehind opened c).bind (Grammar.nest · ts) := by
  rw [bracketsBehind.eq_def]
  cases ho : isOpening c with
  | true =>
    rw [ho, if_pos (.inl rfl)] at h
    exact Grammar.nest_opening h ho opened ts
  | false =>
    cases hc : isClosing c with
    | false =>
      rw [ho, hc, if_neg (by simp)] at h
      exact Grammar.nest_plain h opened ts
    | true =>
      rw [ho, hc, if_pos (.inr rfl)] at h
      cases opened with
      | nil => simp [Grammar.nest, h, ho]
      | cons opening others => cases hp : isPair opening c <;> simp [Grammar.nest, h, ho, hp]

theorem isOpening_or_isClosing {kind : TokenKind} {c : Char} (h : kind.bracket? = some c) :
    isOpening c = true ∨ isClosing c = true := by
  revert h
  cases kind <;> rintro ⟨⟩ <;> decide

theorem nest_bracket {t : Token} {c : Char} (h : t.kind.bracket? = some c) (opened : List Char) (ts : List Token) :
    Grammar.nest opened (t :: ts) = (bracketsBehind opened c).bind (Grammar.nest · ts) :=
  nest_mark (by rw [h, if_pos (isOpening_or_isClosing h)]) opened ts

section
variable {opened us rest : List Char} {o : Nat} {ts : List Token}

theorem judgeFrom_trivia (h : Cut none us rest)
    (hb : ['/', '*'].isPrefixOf us = true → isPassedOver us rest = true) :
    judgeFrom .code opened o (us ++ rest) = judgeFrom .code opened (o + Text.size us) rest := by
  cases h with
  | blank hc => exact judgeFrom_append (behind_plain (by simpa using isPlain_of_isWhitespace hc) _ _)
  | @line inside _ hi hr =>
    have hslash : '\n' ∉ '/' :: inside := by simpa using hi
    have hopen : behind .code opened ('/' :: '/' :: inside) rest = some (.lineComment, opened) :=
      behind_line hslash
    rw [judgeFrom_append hopen, judgeFrom_lineEnd hr]
  | block => exact judgeFrom_passedOver (hb rfl)

/-- The judgement passes a token with its bracket, if it has one, or stops at it. -/
theorem judgeFrom_token {t : Token} (h : Cut (some t.kind) us rest) (opened : List Char) (o : Nat) :
    (∃ opened', (∀ ts, Grammar.nest opened (t :: ts) = Grammar.nest opened' ts) ∧
        judgeFrom .code opened o (us ++ rest) = judgeFrom .code opened' (o + Text.size us) rest) ∨
      ∃ c, t.kind.bracket? = some c ∧ bracketsBehind opened c = none ∧
        judgeFrom .code opened o (us ++ rest) = .unmatched c o := by
  generalize hkind : t.kind = kind at h
  have plain (hk : kind.bracket? = none) (hb : behind .code opened us rest = some (.code, opened)) :
      ∃ opened', (∀ ts, Grammar.nest opened (t :: ts) = Grammar.nest opened' ts) ∧
        judgeFrom .code opened o (us ++ rest) = judgeFrom .code opened' (o + Text.size us) rest :=
    ⟨opened, Grammar.nest_plain (hkind ▸ hk) opened, judgeFrom_append hb⟩
  cases h with
  | string hi => exact .inl (plain rfl (behind_string hi))
  | word _ ha =>
    refine .inl (plain (bracket?_of_isWord (TokenKind.isWord_ofWord us)) (behind_plain (fun c hc => ?_) _ _))
    exact isPlain_of_isAlphanum (by simp [Char.isAlphanum, ha c hc])
  | digits hd =>
    refine .inl (plain rfl (behind_plain (fun c hc => ?_) _ _))
    exact isPlain_of_isAlphanum (by simp [Char.isAlphanum, hd.2 c hc])
  | @mark c _ _ hm hr =>
    obtain ⟨hq, hk⟩ := bracket?_of_mark hm
    have hslash : ¬ (c = '/' ∧ rest.head? = some '/') := fun h => (hr h.1 _ h.2).1 rfl
    have hnest (ts : List Token) := nest_mark (t := t) (hkind ▸ hk) opened ts
    rw [List.singleton_append, judgeFrom_cons, step, if_neg hq, if_neg hslash]
    cases hc : bracketsBehind opened c with
    | some opened' =>
      rw [hc] at hnest
      exact .inl ⟨opened', hnest, by simp⟩
    | none =>
      have hbracket : isOpening c = true ∨ isClosing c = true := by
        refine Classical.byContradiction fun hn => ?_
        rw [not_or, Bool.not_eq_true, Bool.not_eq_true] at hn
        simp [bracketsBehind, hn] at hc
      rw [if_pos hbracket] at hk
      exact .inr ⟨c, hk, hc, rfl⟩

/-- The first token whose bracket closes nothing that is open there. -/
def Mismatch (opened : List Char) (ts : List Token) (c : Char) (offset : Nat) : Prop :=
  ∃ before t after os, ts = before ++ t :: after ∧ Grammar.nest opened before = some os ∧
    t.kind.bracket? = some c ∧ bracketsBehind os c = none ∧ t.span.start = offset

theorem Mismatch.cons {t : Token} {opened' : List Char} {c : Char} {p : Nat}
    (ht : ∀ us, Grammar.nest opened (t :: us) = Grammar.nest opened' us) (h : Mismatch opened' ts c p) :
    Mismatch opened (t :: ts) c p := by
  obtain ⟨before, u, after, os, rfl, hn, hm⟩ := h
  exact ⟨t :: before, u, after, os, rfl, (ht before).trans hn, hm⟩

theorem Mismatch.nest_eq_none {c : Char} {p : Nat} (h : Mismatch opened ts c p) :
    Grammar.nest opened ts = none := by
  obtain ⟨before, t, after, os, rfl, hn, hk, hc, -⟩ := h
  rw [Grammar.nest_append, hn, Option.bind_some, nest_bracket hk, hc]
  rfl

/-- The judgement of a text that is cut into tokens goes by their brackets. -/
theorem judgeFrom_scannedBefore (h : ScannedBefore rest o us ts)
    (hb : ∀ b ∈ blockComments (us ++ rest), isPassedOver b.1 b.2 = true) (opened : List Char) :
    (∃ os, Grammar.nest opened ts = some os ∧
        judgeFrom .code opened o (us ++ rest) = judgeFrom .code os (o + Text.size us) rest) ∨
      ∃ c p, Mismatch opened ts c p ∧ judgeFrom .code opened o (us ++ rest) = .unmatched c p := by
  induction h generalizing opened with
  | nil => exact .inl ⟨opened, rfl, rfl⟩
  | @trivia o taken us ts hcut _ ih =>
    rw [List.append_assoc, blockComments_cut hcut] at hb
    have hpassed (hp : ['/', '*'].isPrefixOf taken = true) : isPassedOver taken (us ++ rest) = true :=
      hb (taken, us ++ rest) (by rw [if_pos hp]; exact List.mem_cons_self)
    rw [List.append_assoc, judgeFrom_trivia hcut hpassed, Text.size_append, ← Nat.add_assoc]
    exact ih (fun b hm => hb b (by split <;> simp [hm])) opened
  | @token o kind taken us ts hcut _ ih =>
    rw [List.append_assoc, blockComments_cut hcut] at hb
    have ih := ih fun b hm => hb b (by split <;> simp [hm])
    rw [List.append_assoc, Text.size_append, ← Nat.add_assoc]
    generalize htoken : Token.mk kind _ _ = t
    have hcut : Cut (some t.kind) taken (us ++ rest) := htoken ▸ hcut
    rcases judgeFrom_token hcut opened o with ⟨opened', ht, hj⟩ | ⟨c, hk, hc, hj⟩
    · rw [hj]
      refine (ih opened').imp ?_ ?_
      · exact fun ⟨os, hn, hj⟩ => ⟨os, (ht ts).trans hn, hj⟩
      · exact fun ⟨c, p, hm, hj⟩ => ⟨c, p, hm.cons ht, hj⟩
    · exact .inr ⟨c, o, ⟨[], t, ts, opened, rfl, rfl, hk, hc, htoken ▸ rfl⟩, hj⟩

end

theorem judgeFrom_scanned {o : Nat} {cs : List Char} {ts : List Token} (h : Scanned o cs ts)
    (hb : ∀ b ∈ blockComments cs, isPassedOver b.1 b.2 = true) {opened opened' : List Char}
    (hn : Grammar.nest opened ts = some opened') :
    judgeFrom .code opened o cs = if opened' = [] then .complete else .incomplete := by
  have hj := judgeFrom_scannedBefore (.of_scanned h) (by rwa [List.append_nil]) opened
  rw [List.append_nil] at hj
  obtain ⟨os, ho, hj⟩ | ⟨c, p, hm, -⟩ := hj
  · cases ho.symm.trans hn
    rw [hj, judgeFrom]
    cases opened' <;> rfl
  · cases hm.nest_eq_none.symm.trans hn

/-- A program is handed over as it stands if what its block comments hold is passed over. -/
theorem judge_ofSource {source : String} {p : Program} (h : Program.ofSource source = .ok p)
    (hb : ∀ b ∈ blockComments source.toList, isPassedOver b.1 b.2 = true) :
    judge source.toList = .complete := by
  obtain ⟨ts, hts, hp⟩ := Program.ofSource_eq_ok.1 h
  have hn := hp.neutral [] []
  rw [List.append_nil] at hn
  exact judgeFrom_scanned hts hb hn

/-- Brackets in comments and in strings, and an address in a comment. -/
theorem judge_ofSource_comments :
    let source := "/* http://a (b */\nf(/* [1] \"]\" */ \"(\") // )"
    ∃ p, Program.ofSource source = .ok p ∧
      (∀ b ∈ blockComments source.toList, isPassedOver b.1 b.2 = true) ∧ judge source.toList = .complete := by
  intro source
  have hb : ∀ b ∈ blockComments source.toList, isPassedOver b.1 b.2 = true := by decide +kernel
  cases h : Program.ofSource source with
  | ok p => exact ⟨p, rfl, hb, judge_ofSource h hb⟩
  | error fault =>
    have hok : (Program.ofSource source).isOk = true := by
      rw [Program.ofSource_eq]
      decide +kernel
    rw [h] at hok
    cases hok

/-- A bracket in a block comment holds back the program, which has no statement. -/
theorem readInputs_block_comment :
    Program.ofSource "/* ( */" = .ok [] ∧ judge "/* ( */".toList = .incomplete ∧
      readInputs "/* ( */\n" = ⟨[], ""⟩ := by
  refine ⟨?_, by decide +kernel, by decide +kernel⟩
  refine Program.ofSource_eq_ok.2 ⟨[], ?_, .nil⟩
  have hc : Cut none "/* ( */".toList [] := @Cut.block [' ', '(', ' '] [] (by decide)
  exact .trivia hc .nil

end RavenLang.Shell
