import RavenLang.Proofs.Shell.Brackets

/-!
# Balanced brackets

Sequences of brackets that close what they open, without a stack. What a stack holds behind a sequence is what
the sequence leaves open, so the stack is empty exactly behind the balanced sequences, and gets stuck exactly
where a sequence no longer begins a balanced one.
-/

namespace RavenLang.Shell

/-- Which closing brackets go with which opening ones is left to `pairs`. -/
inductive Balanced (pairs : Char → Char → Bool) : List Char → Prop
  | nil : Balanced pairs []
  | pair {o c us} : pairs o c = true → Balanced pairs us → Balanced pairs (o :: (us ++ [c]))
  | append {us vs} : Balanced pairs us → Balanced pairs vs → Balanced pairs (us ++ vs)

/-- The sequence leaves these brackets open, innermost first. -/
inductive LeavesOpen (pairs : Char → Char → Bool) : List Char → List Char → Prop
  | closed {us} : Balanced pairs us → LeavesOpen pairs [] us
  | opened {os o us vs} : LeavesOpen pairs os us → Balanced pairs vs → LeavesOpen pairs (o :: os) (us ++ o :: vs)

namespace LeavesOpen

variable {pairs : Char → Char → Bool} {os us vs : List Char} {o c : Char}

theorem append (h : LeavesOpen pairs os us) (hv : Balanced pairs vs) : LeavesOpen pairs os (us ++ vs) := by
  cases h with
  | closed hu => exact .closed (hu.append hv)
  | opened h hu =>
    rw [List.append_assoc]
    exact .opened h (hu.append hv)

theorem push (h : LeavesOpen pairs os us) (o : Char) : LeavesOpen pairs (o :: os) (us ++ [o]) := .opened h .nil

theorem pop (h : LeavesOpen pairs (o :: os) us) (hp : pairs o c = true) : LeavesOpen pairs os (us ++ [c]) := by
  cases h with
  | opened h hv =>
    rw [List.append_assoc]
    exact h.append (.pair hp hv)

theorem balanced (h : LeavesOpen pairs [] us) : Balanced pairs us := by
  cases h with
  | closed h => exact h

/-- What is left open can be closed. -/
theorem exists_balanced (h : LeavesOpen pairs os us) (hos : ∀ o ∈ os, ∃ c, pairs o c = true) :
    ∃ vs, Balanced pairs (us ++ vs) := by
  induction os generalizing us with
  | nil => exact ⟨[], by simpa using h.balanced⟩
  | cons o os ih =>
    rw [List.forall_mem_cons] at hos
    obtain ⟨c, hp⟩ := hos.1
    obtain ⟨vs, hv⟩ := ih (h.pop hp) hos.2
    exact ⟨c :: vs, by simpa using hv⟩

end LeavesOpen

/-! ## The stack -/

section
variable {o c : Char} {opened opened' us vs : List Char}

/-- The brackets that are open behind a sequence, if every closing bracket in it matches. -/
def openBehind (opened : List Char) : List Char → Option (List Char)
  | [] => some opened
  | c :: cs => (bracketsBehind opened c).bind (openBehind · cs)

theorem openBehind_append (opened us vs : List Char) :
    openBehind opened (us ++ vs) = (openBehind opened us).bind (openBehind · vs) := by
  induction us generalizing opened with
  | nil => rfl
  | cons c us ih =>
    simp only [List.cons_append, openBehind, Option.bind_assoc]
    exact Option.bind_congr fun os _ => ih os

/-- An opening bracket is one byte and no quote. -/
theorem isOpening_cases (h : isOpening c = true) : c.utf8Size = 1 ∧ c ≠ '"' := by
  simp only [isOpening, Bool.or_eq_true, decide_eq_true_eq] at h
  rcases h with (rfl | rfl) | rfl <;> decide

theorem isClosing_cases (h : isClosing c = true) : isOpening c = false ∧ c ≠ '"' := by
  simp only [isClosing, Bool.or_eq_true, decide_eq_true_eq] at h
  rcases h with (rfl | rfl) | rfl <;> decide

theorem isPair_cases (h : isPair o c = true) : isOpening o = true ∧ isOpening c = false ∧ isClosing c = true := by
  simp only [isPair, Bool.or_eq_true, Bool.and_eq_true, decide_eq_true_eq] at h
  rcases h with (⟨rfl, rfl⟩ | ⟨rfl, rfl⟩) | ⟨rfl, rfl⟩ <;> decide

theorem exists_isPair (h : isOpening o = true) : ∃ c, isPair o c = true := by
  simp only [isOpening, Bool.or_eq_true, decide_eq_true_eq] at h
  rcases h with (rfl | rfl) | rfl
  · exact ⟨')', rfl⟩
  · exact ⟨']', rfl⟩
  · exact ⟨'\x7d', rfl⟩

theorem bracketsBehind_opening (h : isOpening c = true) (opened : List Char) :
    bracketsBehind opened c = some (c :: opened) := if_pos h

theorem bracketsBehind_closing (h : isPair o c = true) (opened : List Char) :
    bracketsBehind (o :: opened) c = some opened := by
  obtain ⟨-, hc, hc'⟩ := isPair_cases h
  simp [bracketsBehind, hc, hc', h]

/-- A bracket is opened or closed, or gets the stack stuck. -/
theorem bracketsBehind_cases (hc : isOpening c = true ∨ isClosing c = true)
    (h : bracketsBehind opened c = some opened') :
    (isOpening c = true ∧ opened' = c :: opened) ∨ ∃ o, isPair o c = true ∧ opened = o :: opened' := by
  unfold bracketsBehind at h
  split at h
  · next ho =>
    cases h
    exact .inl ⟨ho, rfl⟩
  · next ho =>
    rw [if_pos (hc.resolve_left ho)] at h
    cases opened with
    | nil => cases h
    | cons o others =>
      simp only [Option.ite_none_right_eq_some, Option.some.injEq] at h
      obtain ⟨hp, rfl⟩ := h
      exact .inr ⟨o, hp, rfl⟩

theorem Balanced.openBehind_eq (h : Balanced isPair us) (opened : List Char) :
    openBehind opened us = some opened := by
  induction h generalizing opened with
  | nil => rfl
  | @pair o c us hp _ ih =>
    rw [openBehind, bracketsBehind_opening (isPair_cases hp).1, Option.bind_some, openBehind_append, ih,
      Option.bind_some, openBehind, bracketsBehind_closing hp]
    rfl
  | append _ _ ihu ihv => rw [openBehind_append, ihu, Option.bind_some, ihv]

/-- The stack is what is left open. -/
theorem LeavesOpen.of_openBehind (h : LeavesOpen isPair opened us) (hopened : ∀ o ∈ opened, isOpening o = true)
    (hv : ∀ c ∈ vs, isOpening c = true ∨ isClosing c = true) (ho : openBehind opened vs = some opened') :
    LeavesOpen isPair opened' (us ++ vs) ∧ ∀ o ∈ opened', isOpening o = true := by
  induction vs generalizing opened us with
  | nil =>
    cases ho
    rw [List.append_nil]
    exact ⟨h, hopened⟩
  | cons c vs ih =>
    obtain ⟨os, hos, hrest⟩ := Option.bind_eq_some_iff.1 ho
    rw [List.forall_mem_cons] at hv
    rw [List.append_cons]
    rcases bracketsBehind_cases hv.1 hos with ⟨hc, rfl⟩ | ⟨o, hp, rfl⟩
    · exact ih (h.push c) (List.forall_mem_cons.2 ⟨hc, hopened⟩) hv.2 hrest
    · exact ih (h.pop hp) (List.forall_mem_cons.1 hopened).2 hv.2 hrest

theorem openBehind_eq_nil_iff (hu : ∀ c ∈ us, isOpening c = true ∨ isClosing c = true) :
    openBehind [] us = some [] ↔ Balanced isPair us := by
  refine ⟨fun h => ?_, fun h => h.openBehind_eq []⟩
  exact ((LeavesOpen.closed .nil).of_openBehind (by simp) hu h).1.balanced

/-- The stack is not stuck where a balanced sequence can still follow. -/
theorem isSome_openBehind_iff (hu : ∀ c ∈ us, isOpening c = true ∨ isClosing c = true) :
    (openBehind [] us).isSome = true ↔ ∃ vs, Balanced isPair (us ++ vs) := by
  constructor
  · intro h
    obtain ⟨opened, ho⟩ := Option.isSome_iff_exists.1 h
    obtain ⟨hl, hopened⟩ := (LeavesOpen.closed .nil).of_openBehind (by simp) hu ho
    exact hl.exists_balanced fun o hm => exists_isPair (hopened o hm)
  · rintro ⟨vs, hv⟩
    have h := hv.openBehind_eq []
    rw [openBehind_append] at h
    obtain ⟨opened, ho, -⟩ := Option.bind_eq_some_iff.1 h
    rw [ho]
    rfl

end

end RavenLang.Shell
