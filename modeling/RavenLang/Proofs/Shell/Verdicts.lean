import RavenLang.Proofs.Shell.Balance

/-!
# Verdicts on tokens

Where there are no block comments, a text is judged by the brackets among its tokens: complete if they are
balanced, incomplete if a balanced sequence begins with them, and otherwise by the first bracket behind which
none does.
-/

namespace RavenLang.Shell

open Text (size)

def brackets (ts : List Token) : List Char := ts.filterMap (·.kind.bracket?)

/-- The first closing bracket behind which the brackets no longer begin a balanced sequence. -/
def FirstUnmatched (ts : List Token) (c : Char) (offset : Nat) : Prop :=
  ∃ before t after, ts = before ++ t :: after ∧ t.kind.bracket? = some c ∧ isClosing c = true ∧
    t.span.start = offset ∧ (∃ vs, Balanced isPair (brackets before ++ vs)) ∧
    ¬ ∃ vs, Balanced isPair (brackets (before ++ [t]) ++ vs)

/-! ## Brackets of tokens -/

section
variable {ts : List Token} {opened os : List Char} {c c' : Char} {o p p' : Nat}

theorem brackets_cons (t : Token) (ts : List Token) :
    brackets (t :: ts) = t.kind.bracket?.toList ++ brackets ts := by
  rw [brackets, brackets, List.filterMap_cons]
  cases t.kind.bracket? <;> rfl

theorem isBracket_of_mem (h : c ∈ brackets ts) : isOpening c = true ∨ isClosing c = true := by
  obtain ⟨t, -, ht⟩ := List.mem_filterMap.1 h
  exact isOpening_or_isClosing ht

theorem nest_eq (opened : List Char) (ts : List Token) :
    Grammar.nest opened ts = openBehind opened (brackets ts) := by
  induction ts generalizing opened with
  | nil => rfl
  | cons t ts ih =>
    cases hk : t.kind.bracket? with
    | none => rw [Grammar.nest_plain hk, ih, brackets_cons, hk, Option.toList_none, List.nil_append]
    | some c =>
      rw [nest_bracket hk, brackets_cons, hk, Option.toList_some, List.singleton_append, openBehind]
      exact Option.bind_congr fun os _ => ih os

theorem balanced_iff : Balanced isPair (brackets ts) ↔ Grammar.nest [] ts = some [] := by
  rw [nest_eq, openBehind_eq_nil_iff fun _ => isBracket_of_mem]

theorem begins_iff : (∃ vs, Balanced isPair (brackets ts ++ vs)) ↔ (Grammar.nest [] ts).isSome = true := by
  rw [nest_eq, isSome_openBehind_iff fun _ => isBracket_of_mem]

theorem nest_snoc {t : Token} (hn : Grammar.nest [] ts = some os) (hk : t.kind.bracket? = some c) :
    Grammar.nest [] (ts ++ [t]) = bracketsBehind os c := by
  rw [Grammar.nest_append, hn, Option.bind_some, nest_bracket hk]
  exact Option.bind_fun_some _

theorem firstUnmatched_iff : FirstUnmatched ts c p ↔ Mismatch [] ts c p := by
  constructor
  · rintro ⟨before, t, after, rfl, hk, -, hp, hbegins, hends⟩
    obtain ⟨os, hn⟩ := Option.isSome_iff_exists.1 (begins_iff.1 hbegins)
    rw [begins_iff, nest_snoc hn hk, Bool.not_eq_true, Option.isSome_eq_false_iff,
      Option.isNone_iff_eq_none] at hends
    exact ⟨before, t, after, os, rfl, hn, hk, hends, hp⟩
  · rintro ⟨before, t, after, os, rfl, hn, hk, hc, hp⟩
    have hclosing : isClosing c = true := by
      refine (isOpening_or_isClosing hk).resolve_left fun ho => ?_
      rw [bracketsBehind_opening ho] at hc
      cases hc
    refine ⟨before, t, after, rfl, hk, hclosing, hp, begins_iff.2 (hn ▸ rfl), fun hends => ?_⟩
    rw [begins_iff, nest_snoc hn hk, hc] at hends
    cases hends

theorem Mismatch.append (h : Mismatch opened ts c p) (us : List Token) : Mismatch opened (ts ++ us) c p := by
  obtain ⟨before, t, after, os, rfl, hm⟩ := h
  exact ⟨before, t, after ++ us, os, by simp, hm⟩

/-- Behind the first mismatch there is no other. -/
theorem Mismatch.unique (h : Mismatch opened ts c p) (h' : Mismatch opened ts c' p') : c = c' ∧ p = p' := by
  obtain ⟨before, t, after, os, rfl, hn, hk, hc, rfl⟩ := h
  obtain ⟨before', t', after', os', he, hn', hk', hc', rfl⟩ := h'
  -- a front that were longer would hold the mismatch behind the other one
  have same {us vs ms as bs : List Token} {t t' : Token} {c : Char} {os os' : List Char}
      (hu : Grammar.nest opened us = some os) (hk : t.kind.bracket? = some c) (hc : bracketsBehind os c = none)
      (hv : Grammar.nest opened vs = some os') (hvs : vs = us ++ ms) (ht : t :: as = ms ++ t' :: bs) : t = t' := by
    cases ms with
    | nil => exact (List.cons.inj ht).1
    | cons u ms =>
      obtain ⟨rfl, -⟩ := List.cons.inj ht
      have hm : Mismatch opened vs c t.span.start := ⟨us, t, ms, os, hvs, hu, hk, hc, rfl⟩
      cases hm.nest_eq_none.symm.trans hv
  obtain rfl : t = t' := by
    rcases List.append_eq_append_iff.1 he with ⟨ms, hb, hm⟩ | ⟨ms, hb, hm⟩
    · exact same hn hk hc hn' hb hm
    · exact (same hn' hk' hc' hn hb hm).symm
  exact ⟨Option.some.inj (hk.symm.trans hk'), rfl⟩

end

/-! ## The verdict -/

/-- A verdict on these tokens: the text ends behind them, outside of strings, unless one of them mismatches. -/
def Verdict.On (verdict : Verdict) (ts : List Token) : Prop :=
  (∃ os, Grammar.nest [] ts = some os ∧ verdict = if os = [] then .complete else .incomplete) ∨
    ∃ c p, Mismatch [] ts c p ∧ verdict = .unmatched c p

namespace Verdict.On

variable {verdict : Verdict} {ts : List Token}

theorem complete_iff (h : verdict.On ts) : verdict = .complete ↔ Balanced isPair (brackets ts) := by
  rw [balanced_iff]
  obtain ⟨os, hn, rfl⟩ | ⟨c, p, hm, rfl⟩ := h
  · rw [hn, Option.some.injEq]
    split <;> simp_all
  · rw [hm.nest_eq_none]
    exact iff_of_false nofun nofun

theorem incomplete_iff (h : verdict.On ts) :
    verdict = .incomplete ↔
      ¬ Balanced isPair (brackets ts) ∧ ∃ vs, vs ≠ [] ∧ Balanced isPair (brackets ts ++ vs) := by
  -- what completes an unbalanced sequence is not empty
  have hproper (hb : ¬ Balanced isPair (brackets ts)) :
      (∃ vs, vs ≠ [] ∧ Balanced isPair (brackets ts ++ vs)) ↔ ∃ vs, Balanced isPair (brackets ts ++ vs) := by
    refine ⟨fun ⟨vs, _, hv⟩ => ⟨vs, hv⟩, fun ⟨vs, hv⟩ => ⟨vs, ?_, hv⟩⟩
    rintro rfl
    exact hb (by simpa using hv)
  rw [and_congr_right hproper, begins_iff, ← h.complete_iff]
  obtain ⟨os, hn, rfl⟩ | ⟨c, p, hm, rfl⟩ := h
  · rw [hn]
    split <;> simp
  · rw [hm.nest_eq_none]
    exact iff_of_false nofun fun h => Bool.noConfusion h.2

theorem unmatched_iff (h : verdict.On ts) (c : Char) (p : Nat) :
    verdict = .unmatched c p ↔ FirstUnmatched ts c p := by
  rw [firstUnmatched_iff]
  obtain ⟨os, hn, rfl⟩ | ⟨c', p', hm, rfl⟩ := h
  · refine iff_of_false (by split <;> exact nofun) fun hm => ?_
    cases hm.nest_eq_none.symm.trans hn
  · constructor
    · rintro ⟨⟩
      exact hm
    · intro hm'
      obtain ⟨rfl, rfl⟩ := hm.unique hm'
      rfl

end Verdict.On

section
variable {source : String} {us : List Token}

theorem judge_on (hb : blockComments source.toList = []) (h : tokenize source = .ok us) :
    (judge source.toList).On us := by
  obtain ⟨ts, rfl, hts⟩ := Scanned.of_scan h
  have hj := judgeFrom_scannedBefore (.of_scanned hts) (by simp [hb]) []
  rw [List.append_nil] at hj
  obtain ⟨os, hn, hj⟩ | ⟨c, p, hm, hj⟩ := hj
  · refine .inl ⟨os, ?_, ?_⟩
    · rw [Grammar.nest_append, hn]
      rfl
    · rw [judge, hj, judgeFrom]
      cases os <;> rfl
  · exact .inr ⟨c, p, hm.append _, hj⟩

theorem judgeFrom_openString {inside : List Char} (h : '"' ∉ inside) (opened : List Char) (o : Nat) :
    judgeFrom .string opened o inside = .incomplete := by
  induction inside generalizing o with
  | nil => rfl
  | cons c cs ih =>
    rw [List.mem_cons, not_or] at h
    rw [judgeFrom, if_neg (Ne.symm h.1)]
    exact ih h.2 _

/-- An open string is judged by what stands in front of it. -/
theorem judge_openString {before inside : List Char} {ts : List Token}
    (h : ScannedBefore ('"' :: inside) 0 before ts) (hb : blockComments (before ++ '"' :: inside) = [])
    (hi : '"' ∉ inside) :
    judge (before ++ '"' :: inside) = .incomplete ∨
      ∃ c p, Mismatch [] ts c p ∧ judge (before ++ '"' :: inside) = .unmatched c p := by
  refine (judgeFrom_scannedBefore h (by simp [hb]) []).imp_left fun ⟨os, _, hj⟩ => ?_
  exact hj.trans (judgeFrom_openString hi os _)

/-- The verdict on a text without block comments. If a string is open at its end, a bracket can mismatch only
in front of it. -/
theorem judge_eq_iff (hb : blockComments source.toList = []) :
    (∀ us, tokenize source = .ok us →
      (judge source.toList = .complete ↔ Balanced isPair (brackets us)) ∧
      (judge source.toList = .incomplete ↔
        ¬ Balanced isPair (brackets us) ∧ ∃ vs, vs ≠ [] ∧ Balanced isPair (brackets us ++ vs)) ∧
      ∀ c p, judge source.toList = .unmatched c p ↔ FirstUnmatched us c p) ∧
    (∀ p, Program.ofSource source = .ok p → judge source.toList = .complete) ∧
    ∀ fault, tokenize source = .error fault → fault.cause = .unterminatedString →
      ∃ before inside us, source.toList = before ++ '"' :: inside ∧ '"' ∉ inside ∧
        fault.span.start = size before ∧ tokenize (.ofList before) = .ok us ∧
        (judge source.toList = .incomplete ∨
          ∃ c p, judge source.toList = .unmatched c p ∧ FirstUnmatched us c p) := by
  refine ⟨fun us h => ?_, fun p hp => ?_, fun fault h hcause => ?_⟩
  · have hon := judge_on hb h
    exact ⟨hon.complete_iff, hon.incomplete_iff, hon.unmatched_iff⟩
  · obtain ⟨ts, hts, hp⟩ := Program.ofSource_eq_ok.1 hp
    have hn := hp.neutral [] []
    rw [List.append_nil] at hn
    exact judgeFrom_scanned hts (by simp [hb]) hn
  · obtain ⟨before, rest, ts, hs, hbefore, hu, hstart⟩ := Token.exists_scannedBefore h
    rw [hcause] at hu
    cases hu with
    | @string inside hi =>
      have htokens : tokenize (.ofList before) = .ok (ts ++ [.endAt (size before)]) := by
        rw [tokenize, String.toList_ofList, hbefore.alone.scan, Nat.zero_add]
      refine ⟨before, inside, _, hs, hi, by rw [hstart, Nat.zero_add], htokens, ?_⟩
      rw [hs] at hb ⊢
      refine (judge_openString hbefore hb hi).imp_right ?_
      rintro ⟨c, p, hm, hj⟩
      exact ⟨c, p, hj, firstUnmatched_iff.2 (hm.append _)⟩

/-- Brackets in strings and in line comments do not count, nor do those behind the quote of an open string. -/
theorem judge_eq_iff_strings :
    let program := "f(\"]\") // ("
    let mismatched := "f(\"]\" // )\n[x)"
    let openString := "f(] \"(["
    (∃ p, Program.ofSource program = .ok p ∧ judge program.toList = .complete) ∧
      (∃ us, tokenize mismatched = .ok us ∧ judge mismatched.toList = .unmatched ')' 13 ∧
        FirstUnmatched us ')' 13) ∧
      ∃ before inside us, openString.toList = before ++ '"' :: inside ∧ size before = 4 ∧
        tokenize (.ofList before) = .ok us ∧ judge openString.toList = .unmatched ']' 2 ∧
        FirstUnmatched us ']' 2 := by
  intro program mismatched openString
  refine ⟨?_, ?_, ?_⟩
  · obtain ⟨-, hprogram, -⟩ := @judge_eq_iff program (by decide +kernel)
    obtain ⟨p, hp, -⟩ : ∃ p, Program.ofSource program = .ok p ∧ p.length = 1 := by
      rw [Program.ofSource_eq]
      decide +kernel
    exact ⟨p, hp, hprogram p hp⟩
  · obtain ⟨htokens, -, -⟩ := @judge_eq_iff mismatched (by decide +kernel)
    obtain ⟨us, hus, -⟩ : ∃ us, tokenize mismatched = .ok us ∧ us.length = 7 := by decide +kernel
    have hj : judge mismatched.toList = .unmatched ')' 13 := by decide +kernel
    exact ⟨us, hus, hj, ((htokens us hus).2.2 ')' 13).1 hj⟩
  · obtain ⟨-, -, hstring⟩ := @judge_eq_iff openString (by decide +kernel)
    have hfault : tokenize openString = .error ⟨.unterminatedString, ⟨4, 7⟩⟩ := by decide +kernel
    obtain ⟨before, inside, us, hs, -, hstart, hus, hverdict⟩ := hstring _ hfault rfl
    have hj : judge openString.toList = .unmatched ']' 2 := by decide +kernel
    rw [hj] at hverdict
    obtain h | ⟨c, p, h, hfirst⟩ := hverdict
    · cases h
    · cases h
      exact ⟨before, inside, us, hs, hstart.symm, hus, hj, hfirst⟩

end

end RavenLang.Shell
