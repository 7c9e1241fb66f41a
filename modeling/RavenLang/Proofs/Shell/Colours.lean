import RavenLang.Proofs.Shell.Balance
import RavenLang.Proofs.Text.Slices
import RavenLang.Shell.Highlight

/-!
# Colours of a line

Which colour each character of a line has in the end, and the line written with these colours. A bracket is
coloured when its partner is found, so the colours are decided before anything is written.
-/

namespace RavenLang.Shell

open Text (size)

abbrev Paint := Nat × Colour

/-- What a character at an offset colours, and whether a string and which brackets, with their offsets, are open
behind it. The cursor stands behind the character at `beside`. -/
def paint (beside : Option Nat) (inString : Bool) (opened : List (Char × Nat)) (offset : Nat) (c : Char) :
    List Paint × Bool × List (Char × Nat) :=
  if inString then ([(offset, .green)], c ≠ '"', opened)
  else if c = '"' then ([(offset, .green)], true, opened)
  else if isOpening c then ([], false, (c, offset) :: opened)
  else if isClosing c then
    match opened with
    | [] => ([(offset, .red)], false, [])
    | (opening, place) :: others =>
      if isPair opening c then
        if beside = some offset ∨ beside = some place then ([(offset, .blue), (place, .boldBlue)], false, others)
        else ([], false, others)
      else ([(offset, .red), (place, .boldRed)], false, others)
  else ([], false, opened)

def paints (beside : Option Nat) (inString : Bool) (opened : List (Char × Nat)) (offset : Nat) :
    List Char → List Paint
  | [] => []
  | c :: cs =>
    let s := paint beside inString opened offset c
    s.1 ++ paints beside s.2.1 s.2.2 (offset + c.utf8Size) cs

def coloured (colours : List Paint) (offset : Nat) : List Char → List Cell
  | [] => []
  | c :: cs => ⟨c, colours.lookup offset⟩ :: coloured colours (offset + c.utf8Size) cs

def cells (line : List Char) (cursor : Nat) : List Cell :=
  coloured (paints (placeBeside cursor) false [] 0 line) 0 line

/-! ## Colouring -/

section
variable {colours colours' new : List Paint} {o k : Nat} {us vs : List Char}

theorem map_char_coloured (colours : List Paint) (o : Nat) (us : List Char) :
    (coloured colours o us).map Cell.char = us := by
  induction us generalizing o with
  | nil => rfl
  | cons c us ih => rw [coloured, List.map_cons, ih]

theorem coloured_append (colours : List Paint) (o : Nat) (us vs : List Char) :
    coloured colours o (us ++ vs) = coloured colours o us ++ coloured colours (o + size us) vs := by
  induction us generalizing o with
  | nil => rfl
  | cons c us ih => rw [List.cons_append, coloured, coloured, ih, Text.size_cons, Nat.add_assoc, List.cons_append]

/-- Only the colours of its own offsets matter for a text. -/
theorem coloured_congr (h : ∀ k, o ≤ k → k < o + size us → colours.lookup k = colours'.lookup k) :
    coloured colours o us = coloured colours' o us := by
  induction us generalizing o with
  | nil => rfl
  | cons c us ih =>
    have hc := c.utf8Size_pos
    simp only [Text.size_cons] at h
    rw [coloured, coloured, h o (Nat.le_refl o) (by omega), ih fun k hk hk' => h k (by omega) (by omega)]

theorem exists_of_mem_coloured {cell : Cell} (h : cell ∈ coloured colours o us) :
    ∃ before after, us = before ++ cell.char :: after ∧ cell.colour = colours.lookup (o + size before) := by
  induction us generalizing o with
  | nil => cases h
  | cons c us ih =>
    rcases List.mem_cons.1 h with rfl | h
    · exact ⟨[], us, rfl, rfl⟩
    · obtain ⟨before, after, hus, hcolour⟩ := ih h
      exact ⟨c :: before, after, by rw [hus, List.cons_append], by rw [hcolour, Text.size_cons, Nat.add_assoc]⟩

theorem mem_of_lookup {colour : Colour} (h : colours.lookup k = some colour) : (k, colour) ∈ colours := by
  obtain ⟨before, after, rfl, -⟩ := List.lookup_eq_some_iff.1 h
  exact List.mem_append_right before List.mem_cons_self

theorem exists_paint_of_mem_coloured {cell : Cell} {p : Colour → Bool} (h : cell ∈ coloured colours o us)
    (hp : cell.colour.any p = true) :
    ∃ before after colour, us = before ++ cell.char :: after ∧ (o + size before, colour) ∈ colours ∧
      p colour = true := by
  obtain ⟨before, after, hus, hcolour⟩ := exists_of_mem_coloured h
  rw [hcolour, Option.any_eq_true] at hp
  obtain ⟨colour, hlookup, hp⟩ := hp
  exact ⟨before, after, colour, hus, mem_of_lookup hlookup, hp⟩

theorem lookup_append_of_ne (h : ∀ p ∈ new, p.1 ≠ k) : (colours ++ new).lookup k = colours.lookup k := by
  have hnone : new.lookup k = none := List.lookup_eq_none_iff.2 fun p hp => bne_iff_ne.2 (h p hp).symm
  rw [List.lookup_append, hnone, Option.or_none]

/-- Two offsets that are painted together, the one behind first. -/
theorem lookup_pair {j : Nat} {colour bold : Colour} (hlt : k < j) (hk : colours.lookup k = none)
    (hj : colours.lookup j = none) :
    (colours ++ [(j, colour), (k, bold)]).lookup k = some bold ∧
      (colours ++ [(j, colour), (k, bold)]).lookup j = some colour := by
  have hne : (k == j) = false := beq_false_of_ne (Nat.ne_of_lt hlt)
  constructor
  · rw [List.lookup_append, hk, Option.none_or, List.lookup_cons, hne]
    simp
  · rw [List.lookup_append, hj, Option.none_or, List.lookup_cons, beq_self_eq_true]

theorem lookup_eq_none_of_lt (h : ∀ p ∈ colours, p.1 < k) : colours.lookup k = none :=
  List.lookup_eq_none_iff.2 fun p hp => bne_iff_ne.2 (Nat.ne_of_gt (h p hp))

end

/-! ## Strings -/

/-- A quote opens a string or closes the one that is open. -/
def stringBehind (inString : Bool) : List Char → Bool
  | [] => inString
  | c :: cs => stringBehind (inString ^^ (c = '"')) cs

def bracketsOutside (inString : Bool) : List Char → List Char
  | [] => []
  | c :: cs =>
    if !inString && (isOpening c || isClosing c) then c :: bracketsOutside (inString ^^ (c = '"')) cs
    else bracketsOutside (inString ^^ (c = '"')) cs

theorem stringBehind_append (inString : Bool) (us vs : List Char) :
    stringBehind inString (us ++ vs) = stringBehind (stringBehind inString us) vs := by
  induction us generalizing inString with
  | nil => rfl
  | cons c us ih => exact ih _

theorem bracketsOutside_append (inString : Bool) (us vs : List Char) :
    bracketsOutside inString (us ++ vs) =
      bracketsOutside inString us ++ bracketsOutside (stringBehind inString us) vs := by
  induction us generalizing inString with
  | nil => rfl
  | cons c us ih =>
    rw [List.cons_append, bracketsOutside, bracketsOutside, ih, stringBehind]
    split <;> rfl

/-- Brackets of any two kinds close each other. -/
def anyPair (opening closing : Char) : Bool := isOpening opening && isClosing closing

/-! ## Writing -/

def written (colours : List Paint) (us : List Char) : List Char := (coloured colours 0 us).flatMap Cell.text

/-- The text without the sequences that begin with an escape and `[` and end with `m`. Behind the beginning of
one, `inside` is set. -/
def withoutSequences (inside : Bool) : List Char → List Char
  | [] => []
  | c :: cs =>
    if inside then withoutSequences (c ≠ 'm') cs
    else if c = '\x1b' ∧ cs.head? = some '[' then withoutSequences true cs
    else c :: withoutSequences false cs

section
variable {colours new : List Paint} {us vs rest : List Char}

theorem written_append (colours : List Paint) (us vs : List Char) :
    written colours (us ++ vs) = written colours us ++ (coloured colours (size us) vs).flatMap Cell.text := by
  rw [written, coloured_append, List.flatMap_append, Nat.zero_add, written]

theorem written_paint (h : ∀ p ∈ new, size us ≤ p.1) : written (colours ++ new) us = written colours us := by
  rw [written, coloured_congr fun k _ hk => lookup_append_of_ne fun p hp => ?_]
  · rfl
  · have := h p hp
    omega

/-- A text with the colours of two brackets around a part of it. -/
theorem written_pair {before inside : List Char} {o c : Char} {colour bold : Colour} (ho : o.utf8Size = 1)
    (hopening : colours.lookup (size before) = none)
    (hclosing : colours.lookup (size before + 1 + size inside) = none) :
    written (colours ++ [(size before + 1 + size inside, colour), (size before, bold)])
        (before ++ o :: (inside ++ [c])) =
      written colours before ++ (Cell.text ⟨o, some bold⟩ ++
        ((coloured colours (size before + 1) inside).flatMap Cell.text ++ Cell.text ⟨c, some colour⟩)) := by
  obtain ⟨hbold, hcolour⟩ := @lookup_pair colours _ _ colour bold (by omega) hopening hclosing
  generalize hnew : [(size before + 1 + size inside, colour), (size before, bold)] = new at hbold hcolour ⊢
  have hbefore : written (colours ++ new) before = written colours before := by
    subst hnew
    exact written_paint (by simp [Nat.add_assoc])
  have hinside :
      coloured (colours ++ new) (size before + 1) inside = coloured colours (size before + 1) inside := by
    refine coloured_congr fun k hk hk' => lookup_append_of_ne ?_
    subst hnew
    simp only [List.mem_cons, List.not_mem_nil, or_false, forall_eq_or_imp, forall_eq]
    omega
  rw [written_append, hbefore, coloured, hbold, ho, coloured_append, hinside, coloured, hcolour]
  simp [coloured]

theorem withoutSequences_sequence {parameters : List Char} (h : 'm' ∉ parameters) (rest : List Char) :
    withoutSequences false (sequence parameters ++ rest) = withoutSequences false rest := by
  have hinside : withoutSequences true (parameters ++ 'm' :: rest) = withoutSequences false rest := by
    induction parameters with
    | nil => rfl
    | cons c cs ih =>
      rw [List.mem_cons, not_or] at h
      rw [List.cons_append, withoutSequences, if_pos rfl, decide_eq_true (Ne.symm h.1), ih h.2]
  simpa [sequence, withoutSequences] using hinside

theorem withoutSequences_text {cell : Cell} (h : cell.char ≠ '\x1b') (rest : List Char) :
    withoutSequences false (cell.text ++ rest) = cell.char :: withoutSequences false rest := by
  have hchar (rest : List Char) :
      withoutSequences false (cell.char :: rest) = cell.char :: withoutSequences false rest := by
    rw [withoutSequences, if_neg Bool.false_ne_true, if_neg fun he => h he.1]
  rw [Cell.text]
  cases cell.colour with
  | none => exact hchar rest
  | some colour =>
    have hcode : 'm' ∉ colour.code := by cases colour <;> decide
    rw [List.append_assoc, withoutSequences_sequence hcode, List.cons_append, hchar,
      withoutSequences_sequence (by decide)]

theorem withoutSequences_flatMap {cells : List Cell} (h : ∀ cell ∈ cells, cell.char ≠ '\x1b') :
    withoutSequences false (cells.flatMap Cell.text) = cells.map Cell.char := by
  induction cells with
  | nil => rfl
  | cons cell cells ih =>
    rw [List.forall_mem_cons] at h
    rw [List.flatMap_cons, withoutSequences_text h.1, ih h.2, List.map_cons]

theorem withoutSequences_written (h : '\x1b' ∉ us) (colours : List Paint) :
    withoutSequences false (written colours us) = us := by
  rw [written, withoutSequences_flatMap, map_char_coloured]
  intro cell hcell he
  rw [← map_char_coloured colours 0 us, ← he] at h
  exact h (List.mem_map_of_mem hcell)

end

end RavenLang.Shell
