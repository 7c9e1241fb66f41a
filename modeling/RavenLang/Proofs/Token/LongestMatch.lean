import RavenLang.Proofs.Token.Stopped

/-!
# Longest match

A text is read from the left: of all the texts that match where one stands, the longest is passed, and a
comment up to its first end. Where that comes to a stop is the fault, and there is no other place.
-/

namespace RavenLang

open Text (size)

/-! ## Rules -/

/-- What a matched text is. Only a lexeme or trivia is passed as it stands. -/
inductive Matched where
  | lexeme
  | commentStart
  /-- A string without its second quote. -/
  | openString

/-- White space, words and numbers. -/
def Lexeme.runs : List (Char → Bool) := [Char.isWhitespace, Char.isAlpha, Char.isDigit]

/-- The texts that match. -/
inductive Rule : Matched → List Char → Prop
  | run {p us} : p ∈ Lexeme.runs → us ≠ [] → (∀ c ∈ us, p c = true) → Rule .lexeme us
  | line {inside} : '\n' ∉ inside → Rule .lexeme ('/' :: '/' :: inside)
  | string {inside} : '"' ∉ inside → Rule .lexeme ('"' :: (inside ++ ['"']))
  | mark {c} : (TokenKind.ofMark? c).isSome = true → Rule .lexeme [c]
  | commentStart : Rule .commentStart ['/', '*']
  | openString {inside} : '"' ∉ inside → Rule .openString ('"' :: inside)

/-- The longest of the texts that match at the beginning of a text. -/
structure LongestMatch (m : Matched) (taken rest : List Char) : Prop where
  rule : Rule m taken
  longest : ∀ {m' us}, Rule m' us → us <+: taken ++ rest → us.length ≤ taken.length

/-- What stands before the rest is read by longest match. -/
inductive Passed : List Char → List Char → Prop
  | nil {rest} : Passed [] rest
  | lexeme {taken before rest} : LongestMatch .lexeme taken (before ++ rest) → Passed before rest →
      Passed (taken ++ before) rest
  | comment {inside before rest} : LongestMatch .commentStart ['/', '*'] (inside ++ '*' :: '/' :: (before ++ rest)) →
      ¬ ['*', '/'] <:+: inside → Passed before rest → Passed ('/' :: '*' :: (inside ++ '*' :: '/' :: before)) rest

/-- Why reading does not go on at the rest. What is not closed runs to the end of the text. -/
inductive StopsAt (before : List Char) : List Char → LexicalFault → Prop
  | string {inside} : '"' ∉ inside →
      StopsAt before ('"' :: inside) ⟨.unterminatedString, ⟨size before, size (before ++ '"' :: inside)⟩⟩
  | comment {inside} : ¬ ['*', '/'] <:+: inside →
      StopsAt before ('/' :: '*' :: inside)
        ⟨.unterminatedComment, ⟨size before, size (before ++ '/' :: '*' :: inside)⟩⟩
  | character {c cs} : (∀ m us, ¬ Rule m (c :: us)) →
      StopsAt before (c :: cs) ⟨.invalidCharacter c, ⟨size before, size before + c.utf8Size⟩⟩

/-! ## What may match behind a first character -/

namespace Lexeme

variable {p q : Char → Bool} {c : Char}

theorem mem_runs : p ∈ runs ↔ p = Char.isWhitespace ∨ p = Char.isAlpha ∨ p = Char.isDigit := by
  simp [runs]

theorem runs_disjoint (hp : p ∈ runs) (hq : q ∈ runs) (hpc : p c = true) (hqc : q c = true) : p = q := by
  have letter (h : c.isAlpha = true) : c.isAlphanum = true := by simp [Char.isAlphanum, h]
  have digit (h : c.isDigit = true) : c.isAlphanum = true := by simp [Char.isAlphanum, h]
  have blank (hw : c.isWhitespace = true) (ha : c.isAlphanum = true) : False := by
    rw [isWhitespace_of_isAlphanum ha] at hw
    cases hw
  have number (hd : c.isDigit = true) (ha : c.isAlpha = true) : False := by
    rw [isAlpha_of_isDigit hd] at ha
    cases ha
  rcases mem_runs.1 hp with rfl | rfl | rfl
  · rcases mem_runs.1 hq with rfl | rfl | rfl
    · rfl
    · exact (blank hpc (letter hqc)).elim
    · exact (blank hpc (digit hqc)).elim
  · rcases mem_runs.1 hq with rfl | rfl | rfl
    · exact (blank hqc (letter hpc)).elim
    · rfl
    · exact (number hqc hpc).elim
  · rcases mem_runs.1 hq with rfl | rfl | rfl
    · exact (blank hqc (digit hpc)).elim
    · exact (number hpc hqc).elim
    · rfl

theorem runs_delimiter (hp : p ∈ runs) : p '"' = false ∧ p '/' = false := by
  rcases mem_runs.1 hp with rfl | rfl | rfl <;> decide

theorem runs_mark (hp : p ∈ runs) (hpc : p c = true) : TokenKind.ofMark? c = none := by
  refine TokenKind.ofMark?_eq_none ?_
  rcases mem_runs.1 hp with rfl | rfl | rfl
  · exact .inr hpc
  · exact .inl (by simp [Char.isAlphanum, hpc])
  · exact .inl (by simp [Char.isAlphanum, hpc])

end Lexeme

namespace Rule

variable {m : Matched} {c : Char} {us cs : List Char} {p : Char → Bool}

theorem ne_nil (h : Rule m us) : us ≠ [] := by
  cases h with
  | run _ hne => exact hne
  | _ => exact List.cons_ne_nil _ _

theorem exists_cons (h : Rule m us) (hp : us <+: c :: cs) : ∃ vs, us = c :: vs ∧ vs <+: cs := by
  obtain ⟨d, vs, rfl⟩ := List.exists_cons_of_ne_nil h.ne_nil
  obtain ⟨hd, hvs⟩ := List.cons_prefix_cons.1 hp
  exact ⟨vs, by rw [hd], hvs⟩

theorem forall_run (h : Rule m (c :: us)) (hp : p ∈ Lexeme.runs) (hc : p c = true) : ∀ d ∈ c :: us, p d = true := by
  obtain ⟨hq, hs⟩ := Lexeme.runs_delimiter hp
  cases h with
  | run hp' _ ha => rwa [Lexeme.runs_disjoint hp hp' hc (ha c List.mem_cons_self)]
  | line | commentStart =>
    rw [hs] at hc
    cases hc
  | string | openString =>
    rw [hq] at hc
    cases hc
  | mark =>
    intro d hd
    rwa [List.mem_singleton.1 hd]

theorem of_quote (h : Rule m ('"' :: us)) : ∃ inside, '"' ∉ inside ∧ (us = inside ∨ us = inside ++ ['"']) := by
  cases h with
  | run hp _ ha =>
    have hq := ha '"' List.mem_cons_self
    rw [(Lexeme.runs_delimiter hp).1] at hq
    cases hq
  | string hi => exact ⟨_, hi, .inr rfl⟩
  | mark hm => exact absurd hm (by decide)
  | openString hi => exact ⟨_, hi, .inl rfl⟩

theorem of_slash (h : Rule m ('/' :: us)) : us = [] ∨ us = ['*'] ∨ ∃ inside, us = '/' :: inside ∧ '\n' ∉ inside := by
  cases h with
  | run hp _ ha =>
    have hs := ha '/' List.mem_cons_self
    rw [(Lexeme.runs_delimiter hp).2] at hs
    cases hs
  | line hi => exact .inr (.inr ⟨_, rfl, hi⟩)
  | mark => exact .inl rfl
  | commentStart => exact .inr (.inl rfl)

theorem of_mark (h : Rule m (c :: us)) (hm : (TokenKind.ofMark? c).isSome = true) (hc : c ≠ '/') : us = [] := by
  cases h with
  | run hp _ ha =>
    rw [Lexeme.runs_mark hp (ha c List.mem_cons_self)] at hm
    cases hm
  | line | commentStart => exact absurd rfl hc
  | string | openString => exact absurd hm (by decide)
  | mark => rfl

end Rule

/-! ## Longest texts -/

theorem Trivia.of_blanks {gap : List Char} (h : ∀ c ∈ gap, c.isWhitespace = true) : Trivia gap := by
  induction gap with
  | nil => exact .nil
  | cons c gap ih =>
    rw [List.forall_mem_cons] at h
    exact .blank h.1 (ih h.2)

theorem length_le_of_run {p : Char → Bool} {us vs rest : List Char} (h : vs <+: us ++ rest)
    (hv : ∀ c ∈ vs, p c = true) (hr : ∀ c, rest.head? = some c → p c = false) : vs.length ≤ us.length := by
  refine Nat.le_of_not_lt fun hlt => ?_
  obtain ⟨ms, rfl⟩ := List.prefix_of_prefix_length_le (List.prefix_append us rest) h (Nat.le_of_lt hlt)
  cases ms with
  | nil => simp at hlt
  | cons d ms =>
    obtain ⟨ws, hws⟩ := h
    rw [List.append_assoc, List.append_cancel_left_eq] at hws
    have hd := hr d (by rw [← hws]; rfl)
    rw [hv d (by simp)] at hd
    cases hd

namespace LongestMatch

variable {m : Matched} {taken rest : List Char}

theorem of_cons {c : Char} {us : List Char} (hrule : Rule m (c :: us))
    (hall : ∀ {m' vs}, Rule m' (c :: vs) → vs <+: us ++ rest → vs.length ≤ us.length) :
    LongestMatch m (c :: us) rest := by
  refine ⟨hrule, fun hr hp => ?_⟩
  obtain ⟨vs, rfl, hvs⟩ := hr.exists_cons hp
  exact Nat.succ_le_succ (hall hr hvs)

theorem of_run {p : Char → Bool} {c : Char} {us : List Char} (hp : p ∈ Lexeme.runs)
    (ha : ∀ d ∈ c :: us, p d = true) (hr : ∀ d, rest.head? = some d → p d = false) :
    LongestMatch .lexeme (c :: us) rest := by
  refine of_cons (.run hp (List.cons_ne_nil _ _) ha) fun hrule hvs => ?_
  have hall := hrule.forall_run hp (ha c List.mem_cons_self)
  exact length_le_of_run hvs (fun d hd => hall d (List.mem_cons_of_mem c hd)) hr

/-- A shorter rest leaves fewer texts to match. -/
theorem of_append {more : List Char} (h : LongestMatch m taken (rest ++ more)) : LongestMatch m taken rest := by
  refine ⟨h.rule, fun hr hp => h.longest hr (hp.trans ?_)⟩
  rw [← List.append_assoc]
  exact List.prefix_append _ _

theorem not_rule_snoc {d : Char} (h : LongestMatch m taken (d :: rest)) (m' : Matched) : ¬ Rule m' (taken ++ [d]) := by
  intro hr
  have hle := h.longest hr ⟨rest, by simp⟩
  simp at hle

theorem head_of_run {p : Char → Bool} (h : LongestMatch m taken rest) (hp : p ∈ Lexeme.runs)
    (ha : ∀ c ∈ taken, p c = true) {c : Char} (hc : rest.head? = some c) : p c = false := by
  obtain ⟨rest, rfl⟩ := List.head?_eq_some_iff.1 hc
  refine Bool.eq_false_iff.2 fun hpc => h.not_rule_snoc .lexeme ?_
  exact .run hp (by simp) (List.forall_mem_append.2 ⟨ha, by simpa using hpc⟩)

theorem commentStart (rest : List Char) : LongestMatch .commentStart ['/', '*'] rest := by
  refine of_cons .commentStart fun hr hus => ?_
  rcases hr.of_slash with rfl | rfl | ⟨inside, rfl, -⟩
  · exact Nat.zero_le 1
  · exact Nat.le_refl 1
  · exact absurd (List.cons_prefix_cons.1 hus).1 (by decide)

/-- A lexeme that is matched is cut off. -/
theorem cut (h : LongestMatch .lexeme taken rest) : Trivia taken ∨ ∃ kind, Cut kind taken rest := by
  cases h.rule with
  | run hp hne ha =>
    have hr {c : Char} := h.head_of_run hp ha (c := c)
    rcases Lexeme.mem_runs.1 hp with rfl | rfl | rfl
    · exact .inl (.of_blanks ha)
    · exact .inr ⟨_, .word hne ha fun _ => hr⟩
    · exact .inr ⟨_, .digits ⟨hne, ha⟩ fun _ => hr⟩
  | line hi =>
    refine .inr ⟨_, .line hi fun c hc => ?_⟩
    obtain ⟨rest, rfl⟩ := List.head?_eq_some_iff.1 hc
    refine Classical.byContradiction fun hne => h.not_rule_snoc .lexeme (.line ?_)
    simp [hi, Ne.symm hne]
  | string hi => exact .inr ⟨_, .string hi⟩
  | @mark c hm =>
    obtain ⟨kind, hk⟩ := Option.isSome_iff_exists.1 hm
    refine .inr ⟨_, .mark hk fun hc d hd => ?_⟩
    subst hc
    obtain ⟨rest, rfl⟩ := List.head?_eq_some_iff.1 hd
    exact ⟨fun hs => h.not_rule_snoc .lexeme (hs ▸ .line (by simp)),
      fun hs => h.not_rule_snoc .commentStart (hs ▸ .commentStart)⟩

theorem scan (h : LongestMatch .lexeme taken rest) (o : Nat) :
    ∃ ts, Token.scan o (taken ++ rest) = (Token.scan (o + size taken) rest).map (ts ++ ·) := by
  rcases h.cut with hg | ⟨kind, hcut⟩
  · refine ⟨[], ?_⟩
    rw [Token.scan_gap hg]
    cases Token.scan (o + size taken) rest <;> rfl
  · obtain ⟨ts, hts⟩ := hcut.exists_scan o
    exact ⟨ts, hts rest rfl⟩

end LongestMatch

/-- What is cut off is the longest text that matches, but for a comment. -/
theorem Cut.longest {kind : Option TokenKind} {c : Char} {us rest : List Char} (h : Cut kind (c :: us) rest)
    (hc : c.isWhitespace = false) :
    (∃ inside, c :: us = '/' :: '*' :: (inside ++ ['*', '/']) ∧ ¬ ['*', '/'] <:+: inside) ∨
      LongestMatch .lexeme (c :: us) rest := by
  cases h with
  | blank hw =>
    rw [hw] at hc
    cases hc
  | @line inside _ hi hr =>
    refine .inr (.of_cons (.line hi) fun hrule hvs => ?_)
    rcases hrule.of_slash with rfl | rfl | ⟨inside', rfl, hi'⟩
    · exact Nat.zero_le _
    · exact Nat.succ_le_succ (Nat.zero_le _)
    · refine Nat.succ_le_succ (length_le_of_run (p := (· != '\n')) (List.cons_prefix_cons.1 hvs).2 ?_ ?_)
      · exact fun d hd => bne_iff_ne.2 fun h => hi' (h ▸ hd)
      · exact fun d hd => by simp [hr d hd]
  | block hi => exact .inl ⟨_, rfl, hi⟩
  | @string inside _ hi =>
    refine .inr (.of_cons (.string hi) fun hrule hvs => ?_)
    obtain ⟨inside', hi', hus⟩ := hrule.of_quote
    -- closed or not, no other string gets past the first quote
    have hpre : inside' <+: inside ++ '"' :: rest := by
      rw [List.append_assoc] at hvs
      rcases hus with rfl | rfl
      · exact hvs
      · exact (List.prefix_append _ _).trans hvs
    have hle : inside'.length ≤ inside.length := by
      refine length_le_of_run (p := (· != '"')) hpre (fun d hd => bne_iff_ne.2 fun h => hi' (h ▸ hd)) ?_
      exact fun d hd => by cases hd; decide
    rcases hus with rfl | rfl <;> simp only [List.length_append, List.length_singleton] <;> omega
  | word _ ha hr => exact .inr (.of_run (Lexeme.mem_runs.2 (.inr (.inl rfl))) ha hr)
  | digits hd hr => exact .inr (.of_run (Lexeme.mem_runs.2 (.inr (.inr rfl))) hd.2 hr)
  | mark hm hr =>
    have hmark : (TokenKind.ofMark? c).isSome = true := by rw [hm]; rfl
    refine .inr (.of_cons (.mark hmark) fun hrule hvs => ?_)
    by_cases hs : c = '/'
    · subst hs
      rcases hrule.of_slash with rfl | rfl | ⟨inside, rfl, -⟩
      · exact Nat.le_refl _
      · obtain ⟨ws, rfl⟩ := hvs
        exact absurd rfl (hr rfl '*' rfl).2
      · obtain ⟨ws, rfl⟩ := hvs
        exact absurd rfl (hr rfl '/' rfl).1
    · rw [hrule.of_mark hmark hs]

/-! ## What is passed -/

namespace Passed

variable {before rest : List Char}

/-- What is passed does not depend on the rest being there. -/
theorem alone (h : Passed before rest) : Passed before [] := by
  induction h with
  | nil => exact .nil
  | @lexeme _ before _ hl _ ih => exact .lexeme ((List.append_nil before).symm ▸ hl.of_append) ih
  | comment _ hi _ ih => exact .comment (.commentStart _) hi ih

theorem scan (h : Passed before rest) (o : Nat) :
    ∃ ts, Token.scan o (before ++ rest) = (Token.scan (o + size before) rest).map (ts ++ ·) := by
  induction h generalizing o with
  | @nil rest =>
    refine ⟨[], ?_⟩
    rw [List.nil_append, Text.size_nil, Nat.add_zero]
    cases Token.scan o rest <;> rfl
  | @lexeme taken before rest hl _ ih =>
    obtain ⟨ts, hts⟩ := hl.scan o
    obtain ⟨us, hus⟩ := ih (o + size taken)
    refine ⟨ts ++ us, ?_⟩
    rw [List.append_assoc, hts, hus, Text.size_append, ← Nat.add_assoc]
    cases Token.scan (o + size taken + size before) rest <;> simp [Except.map]
  | @comment inside before rest _ hi _ ih =>
    have hcut : Cut none ('/' :: '*' :: (inside ++ ['*', '/'])) (before ++ rest) := .block hi
    obtain ⟨us, hus⟩ := ih (o + size ('/' :: '*' :: (inside ++ ['*', '/'])))
    refine ⟨us, ?_⟩
    have happ : '/' :: '*' :: (inside ++ '*' :: '/' :: before) = '/' :: '*' :: (inside ++ ['*', '/']) ++ before := by
      simp
    rw [happ, List.append_assoc, hcut.scan_trivia, hus, Text.size_append, ← Nat.add_assoc]

end Passed

/-! ## Where reading stops -/

theorem Lexeme.next_of_uncut {c : Char} {cs : List Char} {cause : LexicalCause} (h : Uncut (c :: cs) cause) :
    next c cs = .error cause := by
  cases h with
  | string hq =>
    have hnone : closeString? cs = none := by
      refine Option.eq_none_iff_forall_ne_some.2 fun closed hs => hq ?_
      obtain ⟨taken, rest⟩ := closed
      obtain ⟨inside, rfl, -⟩ := closeString?_eq_some hs
      rw [← closeString?_append hs]
      simp
    simp only [next, string]
    split
    · next hs => simp [hnone] at hs
    · rfl
  | @comment cs hn =>
    have hnone : closeComment? cs = none := by
      refine Option.eq_none_iff_forall_ne_some.2 fun closed hs => hn ?_
      obtain ⟨taken, rest⟩ := closed
      obtain ⟨inside, rfl, -⟩ := closeComment?_eq_some hs
      rw [← closeComment?_append hs]
      exact ⟨inside, rest, rfl⟩
    simp only [next, Lexeme.comment]
    split
    · next hs => simp [hnone] at hs
    · rfl
  | character hw ha hq hm =>
    have hn : c.isAlpha = false ∧ c.isDigit = false := by simpa [Char.isAlphanum] using ha
    unfold next
    split
    · cases hm
    · cases hm
    · exact absurd rfl hq
    · rw [if_neg (by simp [hw]), if_neg (by simp [hn]), if_neg (by simp [hn]), mark, hm]

theorem Uncut.scan {rest : List Char} {cause : LexicalCause} (h : Uncut rest cause) (o : Nat) :
    Token.scan o rest = .error ⟨cause, ⟨o, o + cause.extent rest⟩⟩ := by
  obtain ⟨c, cs, rfl⟩ := List.exists_cons_of_ne_nil h.ne_nil
  rw [Token.scan, Lexeme.next_of_uncut h]

theorem Uncut.scan_append {rest : List Char} {c : Char} (h : Uncut rest (.invalidCharacter c)) (o : Nat)
    (more : List Char) : Token.scan o (rest ++ more) = Token.scan o rest := by
  rw [h.scan]
  cases h with
  | character hw ha hq hm => exact (Uncut.character hw ha hq hm).scan o

theorem Rule.none_iff {c : Char} :
    (∀ m us, ¬ Rule m (c :: us)) ↔
      c.isWhitespace = false ∧ c.isAlphanum = false ∧ c ≠ '"' ∧ TokenKind.ofMark? c = none := by
  constructor
  · intro h
    have run {p : Char → Bool} (hp : p ∈ Lexeme.runs) : p c = false :=
      Bool.eq_false_iff.2 fun hc => h .lexeme [] (.run hp (List.cons_ne_nil _ _) (by simpa using hc))
    have ha : c.isAlpha = false := run (Lexeme.mem_runs.2 (.inr (.inl rfl)))
    have hd : c.isDigit = false := run (Lexeme.mem_runs.2 (.inr (.inr rfl)))
    refine ⟨run (Lexeme.mem_runs.2 (.inl rfl)), by simp [Char.isAlphanum, ha, hd], ?_, ?_⟩
    · rintro rfl
      exact h .openString [] (.openString List.not_mem_nil)
    · exact Option.not_isSome_iff_eq_none.1 fun hm => h .lexeme [] (.mark hm)
  · rintro ⟨hw, ha, hq, hm⟩ m us h
    have hslash : c ≠ '/' := by
      rintro rfl
      cases hm
    cases h with
    | run hp _ hall =>
      have hc := hall c List.mem_cons_self
      simp only [Char.isAlphanum, Bool.or_eq_false_iff] at ha
      rcases Lexeme.mem_runs.1 hp with rfl | rfl | rfl
      · exact absurd hc (by simp [hw])
      · exact absurd hc (by simp [ha.1])
      · exact absurd hc (by simp [ha.2])
    | line | commentStart => exact hslash rfl
    | string | openString => exact hq rfl
    | mark h =>
      rw [hm] at h
      cases h

theorem stopsAt_iff {before rest : List Char} {fault : LexicalFault} :
    StopsAt before rest fault ↔
      Uncut rest fault.cause ∧ fault.span = ⟨size before, size before + fault.cause.extent rest⟩ := by
  constructor
  · intro h
    cases h with
    | string hq => exact ⟨.string hq, by rw [Text.size_append]; rfl⟩
    | comment hn => exact ⟨.comment hn, by rw [Text.size_append]; rfl⟩
    | character hnone =>
      obtain ⟨hw, ha, hq, hm⟩ := Rule.none_iff.1 hnone
      exact ⟨.character hw ha hq hm, rfl⟩
  · rintro ⟨hu, hs⟩
    obtain ⟨cause, span⟩ := fault
    simp only at hu hs
    subst hs
    cases hu with
    | string hq =>
      have h : StopsAt before _ _ := .string hq
      rwa [Text.size_append] at h
    | comment hn =>
      have h : StopsAt before _ _ := .comment hn
      rwa [Text.size_append] at h
    | character hw ha hq hm => exact .character (Rule.none_iff.2 ⟨hw, ha, hq, hm⟩)

theorem StopsAt.scan {before rest : List Char} {fault : LexicalFault} (h : StopsAt before rest fault) :
    Token.scan (size before) rest = .error fault := by
  obtain ⟨hu, hs⟩ := stopsAt_iff.1 h
  rw [hu.scan, ← hs]

theorem LongestMatch.blanks {c : Char} (hc : c.isWhitespace = true) (cs : List Char) :
    LongestMatch .lexeme (c :: cs.takeWhile Char.isWhitespace) (cs.dropWhile Char.isWhitespace) :=
  .of_run (Lexeme.mem_runs.2 (.inl rfl)) (List.forall_mem_cons.2 ⟨hc, fun _ hd => List.mem_takeWhile_imp hd⟩)
    fun _ hd => Lexeme.head?_dropWhile_eq_false hd

/-- Reading goes on by a lexeme or a comment unless it stops. -/
theorem exists_longestMatch_or_uncut (c : Char) (cs : List Char) :
    (∃ taken rest, taken ≠ [] ∧ c :: cs = taken ++ rest ∧ LongestMatch .lexeme taken rest) ∨
      (∃ inside rest, c :: cs = '/' :: '*' :: (inside ++ '*' :: '/' :: rest) ∧ ¬ ['*', '/'] <:+: inside) ∨
        ∃ cause, Uncut (c :: cs) cause := by
  cases hc : c.isWhitespace with
  | true =>
    refine .inl ⟨_, _, List.cons_ne_nil _ _, ?_, LongestMatch.blanks hc cs⟩
    rw [List.cons_append, List.takeWhile_append_dropWhile]
  | false =>
    cases hl : Lexeme.next c cs with
    | error cause => exact .inr (.inr ⟨cause, Lexeme.uncut_of_next hl⟩)
    | ok l =>
      have hcut := Lexeme.cut_of_next hl hc
      have happ := l.taken_append_rest
      obtain ⟨d, us, ht⟩ := List.exists_cons_of_ne_nil l.taken_ne_nil
      rw [ht] at hcut happ
      obtain rfl : d = c := (List.cons.inj happ).1
      rcases hcut.longest hc with ⟨inside, hi, hn⟩ | hlong
      · refine .inr (.inl ⟨inside, l.rest, happ.symm.trans ?_, hn⟩)
        rw [hi]
        simp
      · exact .inl ⟨_, _, List.cons_ne_nil _ _, happ.symm, hlong⟩

/-- Every text is passed up to its end or up to where reading stops. -/
theorem Passed.exists_uncut (cs : List Char) :
    Passed cs [] ∨ ∃ before rest cause, cs = before ++ rest ∧ Passed before rest ∧ Uncut rest cause := by
  induction hn : cs.length using Nat.strongRecOn generalizing cs with
  | ind n ih =>
    subst hn
    cases cs with
    | nil => exact .inl .nil
    | cons c cs =>
      rcases exists_longestMatch_or_uncut c cs with ⟨taken, rest, hne, he, hl⟩ | ⟨inside, rest, he, hi⟩ | ⟨cause, hu⟩
      · rw [he]
        have hlt : rest.length < (c :: cs).length := by
          have := List.length_pos_iff.2 hne
          rw [he, List.length_append]
          omega
        rcases ih _ hlt rest rfl with hend | ⟨before, rest, cause, rfl, hp, hu⟩
        · exact .inl (.lexeme (by simpa using hl) hend)
        · exact .inr ⟨taken ++ before, rest, cause, by simp, .lexeme hl hp, hu⟩
      · rw [he]
        have hlt : rest.length < (c :: cs).length := by
          rw [he]
          simp only [List.length_cons, List.length_append]
          omega
        rcases ih _ hlt rest rfl with hend | ⟨before, rest, cause, rfl, hp, hu⟩
        · exact .inl (.comment (.commentStart _) hi hend)
        · exact .inr ⟨'/' :: '*' :: (inside ++ '*' :: '/' :: before), rest, cause, by simp,
            .comment (.commentStart _) hi hp, hu⟩
      · exact .inr ⟨[], c :: cs, cause, rfl, .nil, hu⟩

theorem Passed.scan_ok {cs : List Char} (h : Passed cs []) (o : Nat) : ∃ ts, Token.scan o cs = .ok ts := by
  obtain ⟨ts, hts⟩ := h.scan o
  rw [List.append_nil] at hts
  refine ⟨ts ++ [.endAt (o + size cs)], ?_⟩
  rw [hts, Token.scan]
  rfl

theorem StopsAt.scan_passed {before rest : List Char} {fault : LexicalFault} (h : StopsAt before rest fault)
    (hp : Passed before rest) : Token.scan 0 (before ++ rest) = .error fault := by
  obtain ⟨ts, hts⟩ := hp.scan 0
  rw [hts, Nat.zero_add, h.scan]
  rfl

theorem exists_stopsAt_of_scan {cs : List Char} {fault : LexicalFault} (h : Token.scan 0 cs = .error fault) :
    ∃ before rest, cs = before ++ rest ∧ Passed before rest ∧ StopsAt before rest fault := by
  rcases Passed.exists_uncut cs with hp | ⟨before, rest, cause, rfl, hp, hu⟩
  · obtain ⟨ts, hts⟩ := hp.scan_ok 0
    rw [hts] at h
    cases h
  · have hs : StopsAt before rest ⟨cause, ⟨size before, size before + cause.extent rest⟩⟩ := stopsAt_iff.2 ⟨hu, rfl⟩
    cases (hs.scan_passed hp).symm.trans h
    exact ⟨before, rest, rfl, hp, hs⟩

/-- A text has no tokens exactly if reading by longest match stops before its end, and that place is the fault.
The text up to there has tokens, and what stands behind a character that begins nothing does not matter. -/
theorem tokenize_eq_error_iff (source : String) (fault : LexicalFault) :
    (tokenize source = .error fault ↔
        ∃ before rest, source.toList = before ++ rest ∧ Passed before rest ∧ StopsAt before rest fault) ∧
      (tokenize source = .error fault →
        fault.cause ≠ .invalidToken ∧
          (∀ before rest fault', source.toList = before ++ rest → Passed before rest → StopsAt before rest fault' →
            fault' = fault) ∧
          (∀ before rest, source.toList = before ++ rest → size before = fault.span.start →
            ∃ ts, tokenize (.ofList before) = .ok ts) ∧
          ∀ c, fault.cause = .invalidCharacter c → ∀ more, tokenize (source ++ more) = .error fault) := by
  simp only [tokenize, String.toList_ofList, String.toList_append]
  generalize source.toList = cs
  have of_stops {before rest : List Char} {fault : LexicalFault} (he : cs = before ++ rest)
      (hp : Passed before rest) (hs : StopsAt before rest fault) : Token.scan 0 cs = .error fault :=
    he ▸ hs.scan_passed hp
  refine ⟨⟨exists_stopsAt_of_scan, fun ⟨before, rest, he, hp, hs⟩ => of_stops he hp hs⟩, fun h => ?_⟩
  obtain ⟨before, rest, he, hp, hs⟩ := exists_stopsAt_of_scan h
  obtain ⟨hu, hspan⟩ := stopsAt_iff.1 hs
  refine ⟨fun hc => ?_, fun _ _ _ he' hp' hs' => ?_, fun before' rest' he' hstart => ?_, fun c hc more => ?_⟩
  · rw [hc] at hu
    cases hu
  · exact Except.error.inj ((of_stops he' hp' hs').symm.trans h)
  · rw [hspan] at hstart
    obtain rfl := (Text.append_inj (he'.symm.trans he) hstart).1
    exact hp.alone.scan_ok 0
  · obtain ⟨before', rest', ts, rfl, hu', hmore⟩ := Token.scan_eq_error h
    have hall := hmore []
    rw [List.append_nil, List.append_nil, h] at hall
    rw [hc] at hu'
    rw [hmore, hu'.scan_append, ← hall]

/-- Behind a string with the beginning of a comment in it, and comments with a quote and with the same character. -/
theorem tokenize_eq_error_invalidCharacter :
    let source := "\"/*é\" /* \" */ // é\né1\""
    let fault : LexicalFault := ⟨.invalidCharacter 'é', ⟨21, 23⟩⟩
    tokenize source = .error fault ∧ (∀ more, tokenize (source ++ more) = .error fault) ∧
      ∃ before rest, source.toList = before ++ 'é' :: rest ∧ size before = 21 ∧ Passed before ('é' :: rest) ∧
        ∃ ts, tokenize (.ofList before) = .ok ts := by
  intro source fault
  obtain ⟨hiff, hfails⟩ := tokenize_eq_error_iff source fault
  have h : tokenize source = .error fault := by decide +kernel
  obtain ⟨before, rest, he, hp, hs⟩ := hiff.1 h
  obtain ⟨-, -, hbefore, hmore⟩ := hfails h
  refine ⟨h, hmore 'é' rfl, ?_⟩
  obtain ⟨hu, hspan⟩ := stopsAt_iff.1 hs
  have hsize : size before = 21 := (Span.mk.inj hspan).1.symm
  change Uncut rest (.invalidCharacter 'é') at hu
  cases hu with
  | @character _ rest => exact ⟨before, rest, he, hsize, hp, hbefore before _ he hsize⟩

end RavenLang
