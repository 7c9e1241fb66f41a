import RavenLang.Proofs.Shell.Highlight

/-!
# Brackets shown in red

Highlighting knows strings but no comments. What it shows in red are the brackets that do not match in the
line whose slashes are blanked, so the judgement of the line itself agrees with it wherever the line comments
are complete as code.
-/

namespace RavenLang.Shell

open Text (size)

def Colour.isRed (colour : Colour) : Bool := colour = .red || colour = .boldRed

def Cell.isRed (cell : Cell) : Bool := cell.colour.any Colour.isRed

/-- Something is red exactly if a bracket is unmatched, and then that is the first closing bracket in red. -/
def Verdict.ShownBy (verdict : Verdict) (cells : List Cell) : Prop :=
  ((∃ cell ∈ cells, cell.isRed = true) ↔ ∃ c p, verdict = .unmatched c p) ∧
    ∀ c p, verdict = .unmatched c p →
      isClosing c = true ∧ ∃ before after, cells = before ++ ⟨c, some .red⟩ :: after ∧
        size (before.map Cell.char) = p ∧ ∀ cell ∈ before, isClosing cell.char = true → cell.isRed = false

def blankSlash (c : Char) : Char := if c = '/' then ' ' else c

def withoutSlashes (cs : List Char) : List Char := cs.map blankSlash

/-- The line comments that are met in judging a text, without their line ends. -/
def lineComments (context : Context) (opened : List Char) : List Char → List (List Char)
  | [] => []
  | c :: cs =>
    let further := match step context opened c cs with
      | some s => lineComments s.1 s.2 cs
      | none => []
    if context = .code ∧ c = '/' ∧ cs.head? = some '/' then (c :: cs).takeWhile (· ≠ '\n') :: further else further

/-! ## Slashes -/

section
variable {c : Char} {cs opened : List Char} {context : Context} {o : Nat}

theorem blankSlash_slash : blankSlash '/' = ' ' := rfl

theorem blankSlash_of_ne (h : c ≠ '/') : blankSlash c = c := if_neg h

theorem utf8Size_blankSlash (c : Char) : (blankSlash c).utf8Size = c.utf8Size := by
  unfold blankSlash
  split
  · next h =>
    subst h
    rfl
  · rfl

theorem blankSlash_eq_iff {d : Char} (hd : d ≠ '/') (hd' : d ≠ ' ') : blankSlash c = d ↔ c = d := by
  unfold blankSlash
  split
  · next h =>
    subst h
    exact iff_of_false hd'.symm hd.symm
  · rfl

/-- Blanks for slashes only take away line comments. -/
theorem step_withoutSlashes (h : ¬ (context = .code ∧ c = '/' ∧ cs.head? = some '/')) :
    step context opened (blankSlash c) (withoutSlashes cs) = step context opened c cs := by
  have hquote : blankSlash c = '"' ↔ c = '"' := blankSlash_eq_iff (by decide) (by decide)
  have hline : blankSlash c = '\n' ↔ c = '\n' := blankSlash_eq_iff (by decide) (by decide)
  cases context with
  | lineComment => simp only [step, hline]
  | string => simp only [step, hquote]
  | code =>
    by_cases hc : c = '/'
    · subst hc
      simp only [true_and] at h
      rw [step, step, blankSlash_slash, if_neg (by decide), if_neg (fun hs => absurd hs.1 (by decide)),
        if_neg (by decide), if_neg fun hs => h hs.2]
      rfl
    · rw [blankSlash_of_ne hc]
      simp only [step, hc, false_and]

theorem isClosing_of_step_eq_none {rest : List Char} (h : step context opened c rest = none) :
    isClosing c = true := by
  cases context with
  | lineComment | string => cases h
  | code =>
    refine Bool.eq_true_of_not_eq_false fun hc => ?_
    simp only [step] at h
    split_ifs at h
    rw [Option.map_eq_none_iff, bracketsBehind.eq_def, hc, if_neg Bool.false_ne_true] at h
    split at h <;> cases h

theorem isClosing_blankSlash (c : Char) : isClosing (blankSlash c) = isClosing c := by
  unfold blankSlash
  split
  · next h =>
    subst h
    rfl
  · rfl

theorem blankSlash_of_isClosing (h : isClosing c = true) : blankSlash c = c := by
  refine blankSlash_of_ne ?_
  rintro rfl
  exact absurd h (by decide)

/-- A text is judged like code throughout if its line comments are complete as code. -/
theorem judgeFrom_withoutSlashes
    (h : ∀ comment ∈ lineComments context opened cs, judge (withoutSlashes comment) = .complete) :
    judgeFrom context opened o (withoutSlashes cs) = judgeFrom context opened o cs := by
  induction cs generalizing context opened o with
  | nil => rfl
  | cons c cs ih =>
    rw [lineComments] at h
    have hcons : withoutSlashes (c :: cs) = blankSlash c :: withoutSlashes cs := rfl
    have hsize := utf8Size_blankSlash c
    by_cases hcomment : context = .code ∧ c = '/' ∧ cs.head? = some '/'
    · rw [if_pos hcomment, List.forall_mem_cons] at h
      obtain ⟨rfl, rfl, hslash⟩ := hcomment
      have hstep : step .code opened '/' cs = some (.lineComment, opened) := by
        rw [step, if_neg (by decide), if_pos ⟨rfl, hslash⟩]
      rw [hstep] at h
      have hline : judgeFrom .lineComment opened o (withoutSlashes ('/' :: cs)) =
          judgeFrom .code opened o (withoutSlashes ('/' :: cs)) := by
        rw [← List.takeWhile_append_dropWhile (p := (· ≠ '\n')) (l := '/' :: cs), withoutSlashes, List.map_append]
        refine judgeFrom_restOfLine ?_ ?_ h.1
        · intro hmem
          obtain ⟨d, hd, he⟩ := List.mem_map.1 hmem
          obtain rfl := (blankSlash_eq_iff (by decide) (by decide)).1 he
          simpa using List.mem_takeWhile_imp hd
        · intro c hc
          rw [List.head?_map, Option.map_eq_some_iff] at hc
          obtain ⟨d, hd, rfl⟩ := hc
          obtain rfl : d = '\n' := by simpa using Lexeme.head?_dropWhile_eq_false hd
          rfl
      rw [← hline, judgeFrom_cons .code, hstep]
      exact ih h.2
    · rw [if_neg hcomment] at h
      rw [hcons, judgeFrom_cons, judgeFrom_cons, step_withoutSlashes hcomment, hsize]
      cases hs : step context opened c cs with
      | none => rw [blankSlash_of_isClosing (isClosing_of_step_eq_none hs)]
      | some s =>
        rw [hs] at h
        exact ih h

end

/-! ## Paints -/

def contextOf (inString : Bool) : Context := if inString then .string else .code

/-- What the character at an offset paints, and what is open behind it. -/
inductive Painted (o : Nat) (c : Char) :
    Bool → List (Char × Nat) → List Paint → Bool → List (Char × Nat) → Prop
  | string {os} : Painted o c true os [(o, .green)] (c ≠ '"') os
  | quote {os} : c = '"' → Painted o c false os [(o, .green)] true os
  | opening {os} : isOpening c = true → Painted o c false os [] false ((c, o) :: os)
  | alone : isClosing c = true → Painted o c false [] [(o, .red)] false []
  | closing {b os} : isPair b.1 c = true → Painted o c false (b :: os) [] false os
  | pair {b os} : isPair b.1 c = true → Painted o c false (b :: os) [(o, .blue), (b.2, .boldBlue)] false os
  | mismatch {b os} : isClosing c = true → isPair b.1 c = false →
      Painted o c false (b :: os) [(o, .red), (b.2, .boldRed)] false os
  | plain {os} : c ≠ '"' → isOpening c = false → isClosing c = false → Painted o c false os [] false os

theorem painted (beside : Option Nat) (inString : Bool) (opened : List (Char × Nat)) (o : Nat) (c : Char) :
    Painted o c inString opened (paint beside inString opened o c).1 (paint beside inString opened o c).2.1
      (paint beside inString opened o c).2.2 := by
  rw [paint.eq_def]
  cases inString with
  | true => exact .string
  | false =>
    rw [if_neg Bool.false_ne_true]
    split_ifs with hq ho hc
    · exact .quote hq
    · exact .opening ho
    · cases opened with
      | nil => exact .alone hc
      | cons b os =>
        dsimp only
        split_ifs with hp
        · exact .pair hp
        · exact .closing hp
        · exact .mismatch hc (Bool.eq_false_of_not_eq_true hp)
    · exact .plain hq (Bool.eq_false_of_not_eq_true ho) (Bool.eq_false_of_not_eq_true hc)

theorem step_code_blankSlash (c : Char) (opened rest : List Char) :
    step .code opened (blankSlash c) rest =
      if c = '"' then some (.string, opened) else (bracketsBehind opened c).map (.code, ·) := by
  by_cases hc : c = '/'
  · subst hc
    rw [step, blankSlash_slash, if_neg (by decide), if_neg (fun hs => absurd hs.1 (by decide)), if_neg (by decide)]
    rfl
  · rw [step, blankSlash_of_ne hc]
    simp only [hc, false_and, if_false]

namespace Painted

variable {o : Nat} {c : Char} {inString inString' : Bool} {opened opened' : List (Char × Nat)} {new : List Paint}

/-- A character paints itself, or in bold a bracket that was open. -/
theorem of_mem (h : Painted o c inString opened new inString' opened') {q : Paint} (hq : q ∈ new) :
    q.1 = o ∧ q.2 ≠ .boldRed ∨ q.2 ≠ .red ∧ ∃ b ∈ opened, b.2 = q.1 := by
  cases h <;> simp at hq <;> rcases hq with rfl | rfl <;> simp

theorem of_opened (h : Painted o c inString opened new inString' opened') {b : Char × Nat} (hb : b ∈ opened') :
    b ∈ opened ∨ isOpening c = true ∧ b = (c, o) := by
  cases h with
  | opening ho => exact (List.mem_cons.1 hb).symm.imp_right fun hb => ⟨ho, hb⟩
  | alone => cases hb
  | string | quote | plain => exact .inl hb
  | closing | pair | mismatch => exact .inl (List.mem_cons_of_mem _ hb)

/-- Nothing is painted red where the judgement goes on, and the character itself where it stops. -/
theorem step (h : Painted o c inString opened new inString' opened') (hopened : ∀ b ∈ opened, b.2 < o)
    (rest : List Char) :
    (Shell.step (contextOf inString) (opened.map Prod.fst) (blankSlash c) rest =
        some (contextOf inString', opened'.map Prod.fst) ∧ ∀ q ∈ new, q.2.isRed = false ∧ q.1 ≤ o) ∨
      Shell.step (contextOf inString) (opened.map Prod.fst) (blankSlash c) rest = none ∧
        ∃ new', new = (o, .red) :: new' := by
  have code (os : List Char) : Shell.step (contextOf false) os (blankSlash c) rest =
      if c = '"' then some (.string, os) else (bracketsBehind os c).map (.code, ·) :=
    step_code_blankSlash c os rest
  -- where a closing bracket meets what is open
  have closed {os : List Char} (hc : isClosing c = true) (hos : bracketsBehind os c = none) :
      Shell.step (contextOf false) os (blankSlash c) rest = none := by
    rw [code, if_neg (isClosing_cases hc).2, hos]
    rfl
  have paired {b : Char × Nat} {os : List (Char × Nat)} (hp : isPair b.1 c = true) :
      Shell.step (contextOf false) ((b :: os).map Prod.fst) (blankSlash c) rest =
        some (contextOf false, os.map Prod.fst) := by
    rw [code, if_neg (isClosing_cases (isPair_cases hp).2.2).2, List.map_cons, bracketsBehind_closing hp]
    rfl
  cases h with
  | string =>
    have hquote : blankSlash c = '"' ↔ c = '"' := blankSlash_eq_iff (by decide) (by decide)
    refine .inl ⟨?_, by simp [Colour.isRed]⟩
    rw [contextOf, if_pos rfl, Shell.step]
    simp only [hquote]
    by_cases hq : c = '"' <;> simp [contextOf, hq]
  | quote hq =>
    refine .inl ⟨?_, by simp [Colour.isRed]⟩
    rw [code, if_pos hq]
    rfl
  | opening ho =>
    refine .inl ⟨?_, by simp⟩
    rw [code, if_neg (isOpening_cases ho).2, bracketsBehind_opening ho]
    rfl
  | alone hc =>
    refine .inr ⟨closed hc ?_, [], rfl⟩
    rw [List.map_nil, bracketsBehind, (isClosing_cases hc).1, if_neg Bool.false_ne_true, if_pos hc]
  | closing hp => exact .inl ⟨paired hp, by simp⟩
  | @pair b os hp =>
    have hb := Nat.le_of_lt (hopened b List.mem_cons_self)
    exact .inl ⟨paired hp, by simp [Colour.isRed, hb]⟩
  | mismatch hc hp =>
    refine .inr ⟨closed hc ?_, _, rfl⟩
    rw [List.map_cons, bracketsBehind, (isClosing_cases hc).1, if_neg Bool.false_ne_true, if_pos hc, hp,
      if_neg Bool.false_ne_true]
  | plain hq ho hc =>
    refine .inl ⟨?_, by simp⟩
    rw [code, if_neg hq, bracketsBehind.eq_def, ho, hc, if_neg Bool.false_ne_true, if_neg Bool.false_ne_true]
    rfl

end Painted

/-- The offset of the first closing bracket that is painted red. -/
structure FirstRed (colours : List Paint) (p : Nat) : Prop where
  red : colours.lookup p = some .red
  first : ∀ q ∈ colours, q.2 = .red → p ≤ q.1

/-- What is painted before is not red, and stands in front of it. -/
theorem FirstRed.behind {colours new : List Paint} {p : Nat} (h : FirstRed colours p)
    (hnew : ∀ q ∈ new, q.2.isRed = false ∧ q.1 < p) : FirstRed (new ++ colours) p := by
  refine ⟨?_, fun q hq hred => ?_⟩
  · rw [List.lookup_append, lookup_eq_none_of_lt fun q hq => (hnew q hq).2, Option.none_or, h.red]
  · rcases List.mem_append.1 hq with hq | hq
    · have := (hnew q hq).1
      rw [hred] at this
      cases this
    · exact h.first q hq hred

section
variable {beside : Option Nat} {inString : Bool} {opened : List (Char × Nat)} {o : Nat} {cs : List Char}
  {q : Paint}

theorem le_of_red (hq : q ∈ paints beside inString opened o cs) (hred : q.2 = .red) : o ≤ q.1 := by
  induction cs generalizing inString opened o with
  | nil => cases hq
  | cons c cs ih =>
    rcases List.mem_append.1 hq with hq | hq
    · exact ((painted beside inString opened o c).of_mem hq).elim (·.1.ge) (absurd hred ·.1)
    · exact Nat.le_of_add_right_le (ih hq)

/-- Bold red are opening brackets. -/
theorem isOpening_of_boldRed (hq : q ∈ paints beside inString opened o cs) (hbold : q.2 = .boldRed) :
    (∃ b ∈ opened, b.2 = q.1) ∨ ∃ us c vs, cs = us ++ c :: vs ∧ isOpening c = true ∧ q.1 = o + size us := by
  induction cs generalizing inString opened o with
  | nil => cases hq
  | cons c cs ih =>
    have hpainted := painted beside inString opened o c
    rcases List.mem_append.1 hq with hq | hq
    · exact .inl ((hpainted.of_mem hq).elim (absurd hbold ·.2) (·.2))
    · rcases ih hq with ⟨b, hb, hbq⟩ | ⟨us, d, vs, rfl, hd, hdq⟩
      · rcases hpainted.of_opened hb with hb | ⟨hc, rfl⟩
        · exact .inl ⟨b, hb, hbq⟩
        · exact .inr ⟨[], c, cs, rfl, hc, hbq.symm⟩
      · exact .inr ⟨c :: us, d, vs, rfl, hd, by rw [hdq, Text.size_cons, Nat.add_assoc]⟩

/-- The judgement stops at the first closing bracket that is painted red. -/
theorem judgeFrom_paints (hopened : ∀ b ∈ opened, b.2 < o) :
    (∃ us c vs, cs = us ++ c :: vs ∧ isClosing c = true ∧
      judgeFrom (contextOf inString) (opened.map Prod.fst) o (withoutSlashes cs) = .unmatched c (o + size us) ∧
      FirstRed (paints beside inString opened o cs) (o + size us)) ∨
    (∀ c p, judgeFrom (contextOf inString) (opened.map Prod.fst) o (withoutSlashes cs) ≠ .unmatched c p) ∧
      ∀ q ∈ paints beside inString opened o cs, q.2.isRed = false := by
  induction cs generalizing inString opened o with
  | nil =>
    refine .inr ⟨fun c p h => ?_, by simp [paints]⟩
    rw [withoutSlashes, List.map_nil, judgeFrom] at h
    split at h <;> cases h
  | cons c cs ih =>
    have hc := c.utf8Size_pos
    have hcons : withoutSlashes (c :: cs) = blankSlash c :: withoutSlashes cs := rfl
    have hpainted := painted beside inString opened o c
    have hred (q : Paint) (hq : q ∈ paints beside inString opened o (c :: cs)) (h : q.2 = .red) : o ≤ q.1 :=
      le_of_red hq h
    rw [paints] at hred ⊢
    generalize paint beside inString opened o c = s at hpainted hred
    obtain ⟨new, inString', opened'⟩ := s
    dsimp only at hpainted hred ⊢
    have hopened' : ∀ b ∈ opened', b.2 < o + c.utf8Size := by
      intro b hb
      rcases hpainted.of_opened hb with hb | ⟨-, rfl⟩
      · have := hopened b hb
        omega
      · exact Nat.lt_add_of_pos_right hc
    rw [hcons, judgeFrom_cons]
    rcases hpainted.step hopened (withoutSlashes cs) with ⟨hstep, hnew⟩ | ⟨hstep, new', rfl⟩
    · rw [hstep, utf8Size_blankSlash]
      dsimp only
      rcases ih hopened' with ⟨us, d, vs, hcs, hd, hj, hfirst⟩ | ⟨hj, hplain⟩
      · refine .inl ⟨c :: us, d, vs, by rw [hcs, List.cons_append], hd, ?_, ?_⟩
        · rw [hj, Text.size_cons, Nat.add_assoc]
        · rw [Text.size_cons, ← Nat.add_assoc]
          exact hfirst.behind fun q hq => ⟨(hnew q hq).1, by have := (hnew q hq).2; omega⟩
      · refine .inr ⟨hj, fun q hq => ?_⟩
        rcases List.mem_append.1 hq with hq | hq
        · exact (hnew q hq).1
        · exact hplain q hq
    · rw [hstep]
      have hclosing := isClosing_blankSlash c ▸ isClosing_of_step_eq_none hstep
      refine .inl ⟨[], c, cs, rfl, hclosing, ?_, by simp, hred⟩
      rw [blankSlash_of_isClosing hclosing]
      rfl

end

/-! ## Lines -/

theorem FirstRed.shownBy {colours : List Paint} {us vs : List Char} {c : Char} (h : FirstRed colours (size us))
    (hc : isClosing c = true)
    (hbold : ∀ q ∈ colours, q.2 = .boldRed →
      ∃ as d bs, us ++ c :: vs = as ++ d :: bs ∧ isOpening d = true ∧ q.1 = size as) :
    (Verdict.unmatched c (size us)).ShownBy (coloured colours 0 (us ++ c :: vs)) := by
  have hcells : coloured colours 0 (us ++ c :: vs) =
      coloured colours 0 us ++ ⟨c, some .red⟩ :: coloured colours (size us + c.utf8Size) vs := by
    rw [coloured_append, Nat.zero_add, coloured, h.red]
  rw [hcells]
  have hred : (⟨c, some .red⟩ : Cell) ∈
      coloured colours 0 us ++ ⟨c, some .red⟩ :: coloured colours (size us + c.utf8Size) vs := by simp
  refine ⟨iff_of_true ⟨_, hred, rfl⟩ ⟨c, _, rfl⟩, ?_⟩
  rintro _ _ ⟨⟩
  refine ⟨hc, _, _, rfl, by rw [map_char_coloured], fun cell hcell hclosing => ?_⟩
  refine Bool.eq_false_of_not_eq_true fun hred => ?_
  obtain ⟨before, after, colour, rfl, hmem, hred⟩ := exists_paint_of_mem_coloured hcell hred
  rw [Nat.zero_add] at hmem
  simp only [Colour.isRed, Bool.or_eq_true, decide_eq_true_eq] at hred
  rcases hred with rfl | rfl
  · have hle := h.first _ hmem rfl
    have hpos := cell.char.utf8Size_pos
    simp only [Text.size_append, Text.size_cons] at hle
    omega
  · obtain ⟨as, d, bs, he, hd, hsize⟩ := hbold _ hmem rfl
    rw [List.append_assoc, List.cons_append] at he
    cases (Text.append_inj he hsize).2
    rw [(isClosing_cases hclosing).1] at hd
    cases hd

theorem shownBy_of_plain {colours : List Paint} {verdict : Verdict} (hv : ∀ c p, verdict ≠ .unmatched c p)
    (hplain : ∀ q ∈ colours, q.2.isRed = false) (line : List Char) :
    verdict.ShownBy (coloured colours 0 line) := by
  refine ⟨iff_of_false ?_ fun ⟨c, p, h⟩ => hv c p h, fun c p h => absurd h (hv c p)⟩
  rintro ⟨cell, hcell, hred⟩
  obtain ⟨_, _, colour, -, hmem, hred⟩ := exists_paint_of_mem_coloured hcell hred
  exact absurd ((hplain _ hmem).symm.trans hred) Bool.false_ne_true

theorem judge_withoutSlashes_shownBy (line : List Char) (cursor : Nat) :
    (judge (withoutSlashes line)).ShownBy (cells line cursor) := by
  have hpaints := @judgeFrom_paints (placeBeside cursor) false [] 0 line (by simp)
  have hbold {q : Paint} := @isOpening_of_boldRed (placeBeside cursor) false [] 0 line q
  rcases hpaints with ⟨us, c, vs, rfl, hc, hj, hfirst⟩ | ⟨hj, hplain⟩
  · rw [Nat.zero_add] at hj hfirst
    have hverdict : judge (withoutSlashes (us ++ c :: vs)) = .unmatched c (size us) := hj
    rw [hverdict]
    refine hfirst.shownBy hc fun q hq hred => ?_
    simpa using hbold hq hred
  · exact shownBy_of_plain hj hplain line

namespace Verdict.ShownBy

variable {verdict verdict' : Verdict} {cells : List Cell} {c : Char} {p : Nat}

theorem congr (h : verdict.ShownBy cells) (hv : ∀ c p, verdict = .unmatched c p ↔ verdict' = .unmatched c p) :
    verdict'.ShownBy cells := by
  refine ⟨?_, fun c p hc => h.2 c p ((hv c p).2 hc)⟩
  rw [h.1]
  simp only [hv]

theorem unique (h : verdict.ShownBy cells) (h' : verdict'.ShownBy cells) (hv : verdict = .unmatched c p) :
    verdict' = .unmatched c p := by
  obtain ⟨hc, before, after, hcells, hp, hbefore⟩ := h.2 c p hv
  have hred : ∃ cell ∈ cells, cell.isRed = true := ⟨⟨c, some .red⟩, by simp [hcells], rfl⟩
  obtain ⟨c', p', hv'⟩ := h'.1.1 hred
  obtain ⟨hc', before', after', hcells', hp', hbefore'⟩ := h'.2 c' p' hv'
  -- both are the cell behind those that are no closing brackets in red
  have front {b a : List Cell} {d : Char} (hd : isClosing d = true)
      (hb : ∀ cell ∈ b, isClosing cell.char = true → cell.isRed = false) (he : cells = b ++ ⟨d, some .red⟩ :: a) :
      cells.takeWhile (fun cell => !(isClosing cell.char && cell.isRed)) = b := by
    rw [he, List.takeWhile_append_of_pos, List.takeWhile_cons_of_neg, List.append_nil]
    · simp [hd, Cell.isRed, Colour.isRed]
    · intro cell hcell
      have := hb cell hcell
      cases hclosing : isClosing cell.char <;> simp_all
  obtain rfl : before = before' := (front hc hbefore hcells).symm.trans (front hc' hbefore' hcells')
  have hcell := List.append_cancel_left (hcells.symm.trans hcells')
  cases hcell
  rw [hv', ← hp, ← hp']

end Verdict.ShownBy

/-- What is red is what does not match in the line whose slashes are blanked. So the judgement of the line agrees
with it exactly if it finds the same mismatch there, as it does if every line comment is complete as code. -/
theorem judge_shownBy (line : String) (cursor : Nat) :
    ∃ (text : String) (cells : List Cell), highlight? line cursor = some text ∧
      text.toList = cells.flatMap Cell.text ∧ cells.map Cell.char = line.toList ∧
      (judge (withoutSlashes line.toList)).ShownBy cells ∧
      ((judge line.toList).ShownBy cells ↔
        ∀ c p, judge line.toList = .unmatched c p ↔ judge (withoutSlashes line.toList) = .unmatched c p) ∧
      ((∀ comment ∈ lineComments .code [] line.toList, judge (withoutSlashes comment) = .complete) →
        (judge line.toList).ShownBy cells) := by
  have hshown := judge_withoutSlashes_shownBy line.toList cursor
  refine ⟨_, _, highlight?_eq line cursor, String.toList_ofList, map_char_coloured _ 0 _, hshown, ?_, fun h => ?_⟩
  · exact ⟨fun h c p => ⟨h.unique hshown, hshown.unique h⟩, fun h => hshown.congr fun c p => (h c p).symm⟩
  · rw [judge, judgeFrom_withoutSlashes h] at hshown
    exact hshown

/-- The brackets of a comment that is complete as code are no mismatch for either. -/
theorem judge_shownBy_comment :
    let line := "f(x) // (y)\n)"
    (∀ comment ∈ lineComments .code [] line.toList, judge (withoutSlashes comment) = .complete) ∧
      judge line.toList = .unmatched ')' 12 ∧ highlight? line 0 = some "f(x) // (y)\n\x1b[31m)\x1b[0m" ∧
      ∃ cells : List Cell, cells.flatMap Cell.text = "f(x) // (y)\n\x1b[31m)\x1b[0m".toList ∧
        (judge line.toList).ShownBy cells := by
  intro line
  have hcomments : ∀ comment ∈ lineComments .code [] line.toList, judge (withoutSlashes comment) = .complete := by
    decide +kernel
  have htext : highlight? line 0 = some "f(x) // (y)\n\x1b[31m)\x1b[0m" := by decide +kernel
  obtain ⟨text, cells, htext', hcells, -, -, -, hshown⟩ := judge_shownBy line 0
  cases htext.symm.trans htext'
  exact ⟨hcomments, by decide +kernel, htext, cells, hcells.symm, hshown hcomments⟩

/-- A bracket in a comment is shown in red, though the judgement passes over it. -/
theorem judge_not_shownBy :
    let line := "// )"
    judge line.toList = .complete ∧ highlight? line 0 = some "// \x1b[31m)\x1b[0m" ∧
      ¬ (judge line.toList).ShownBy (cells line.toList 0) := by
  intro line
  have hjudge : judge line.toList = .complete := by decide +kernel
  refine ⟨hjudge, by decide +kernel, fun h => ?_⟩
  have hred : ⟨')', some .red⟩ ∈ cells line.toList 0 := by decide +kernel
  obtain ⟨c, p, hc⟩ := h.1.1 ⟨_, hred, rfl⟩
  cases hjudge.symm.trans hc

end RavenLang.Shell
