import RavenLang.Proofs.Shell.Colours

/-!
# Writing in place

A bracket is coloured where it was written, in front of what is open around it and behind it. The offsets
that are held for the open brackets stay right, since only what is written behind them changes.
-/

namespace RavenLang.Shell

open Text (size)

/-! ## Open brackets -/

/-- The open brackets behind a text, innermost first. Behind each of them stand, outside of strings, only
brackets that are closed. -/
inductive Held (colours : List Paint) : List Opened → List Char → Prop
  | nil {us} : Held colours [] us
  | cons {bs before c inside} : Held colours bs before → isOpening c = true → stringBehind false before = false →
      colours.lookup (size before) = none → Balanced anyPair (bracketsOutside false inside) →
      Held colours (⟨c, size before, size (written colours before)⟩ :: bs) (before ++ c :: inside)

theorem stringBehind_bracket {o : Char} (h : isOpening o = true) (us : List Char) :
    stringBehind false (o :: us) = stringBehind false us := by
  rw [stringBehind, decide_eq_false (isOpening_cases h).2, Bool.xor_false]

theorem bracketsOutside_pair {o c : Char} {us : List Char} (ho : isOpening o = true) (hc : isClosing c = true)
    (hs : stringBehind false us = false) :
    bracketsOutside false (o :: (us ++ [c])) = o :: (bracketsOutside false us ++ [c]) := by
  rw [bracketsOutside, decide_eq_false (isOpening_cases ho).2, ho, Bool.xor_false, bracketsOutside_append, hs]
  simp [bracketsOutside, hc]

theorem replaceByte?_append (new as : List Char) {c : Char} (h : c.utf8Size = 1) (cs : List Char) :
    replaceByte? new (as ++ c :: cs) (size as) = some (as ++ (new ++ cs)) := by
  induction as with
  | nil =>
    rw [List.nil_append, Text.size_nil, replaceByte?, if_pos h]
    rfl
  | cons a as ih =>
    obtain ⟨k, hk⟩ := Nat.exists_eq_add_of_lt a.utf8Size_pos
    have hsize : size (a :: as) = k + size as + 1 := by
      rw [Text.size_cons]
      omega
    have hrest : k + size as + 1 - a.utf8Size = size as := by omega
    rw [hsize, List.cons_append, replaceByte?, if_neg (by omega), hrest, ih]
    rfl

namespace Held

variable {colours new : List Paint} {bs : List Opened} {us vs : List Char}

theorem paint (h : Held colours bs us) (hnew : ∀ p ∈ new, size us ≤ p.1) : Held (colours ++ new) bs us := by
  induction h with
  | nil => exact .nil
  | @cons bs before c inside _ ho hs hl hb ih =>
    have hc := c.utf8Size_pos
    simp only [Text.size_append, Text.size_cons] at hnew
    have hbefore : ∀ p ∈ new, size before < p.1 := fun p hp => by
      have := hnew p hp
      omega
    have hle : ∀ p ∈ new, size before ≤ p.1 := fun p hp => Nat.le_of_lt (hbefore p hp)
    rw [← written_paint hle]
    refine .cons (ih hle) ho hs ?_ hb
    rw [lookup_append_of_ne fun p hp => Nat.ne_of_gt (hbefore p hp)]
    exact hl

theorem append (h : Held colours bs us) (hb : Balanced anyPair (bracketsOutside (stringBehind false us) vs)) :
    Held colours bs (us ++ vs) := by
  cases h with
  | nil => exact .nil
  | cons h ho hs hl hi =>
    rw [stringBehind_append, hs, stringBehind_bracket ho] at hb
    rw [List.append_assoc, List.cons_append]
    refine .cons h ho hs hl ?_
    rw [bracketsOutside_append]
    exact hi.append hb

end Held

/-! ## The blue pair -/

def Colour.isBlue (colour : Colour) : Bool := colour = .blue || colour = .boldBlue

def Cell.isBlue (cell : Cell) : Bool := cell.colour.any Colour.isBlue

/-- Behind `before` two brackets match around `inside`: none of them is in a string, and between them every
bracket outside of strings is closed. -/
structure Matched (before : List Char) (o : Char) (inside : List Char) (c : Char) : Prop where
  isPair : isPair o c = true
  before_outside : stringBehind false before = false
  inside_outside : stringBehind false inside = false
  balanced : Balanced anyPair (bracketsOutside false inside)

/-- No offset of the text is blue, or only those of two brackets that match, one of which is at `beside`. -/
inductive OnePair (beside : Option Nat) (colours : List Paint) (us : List Char) : Prop
  | none : (∀ k, (colours.lookup k).any Colour.isBlue = false) → OnePair beside colours us
  | one {before o inside c after} : us = before ++ o :: (inside ++ c :: after) → Matched before o inside c →
      colours.lookup (size before) = some .boldBlue → colours.lookup (size before + 1 + size inside) = some .blue →
      (∀ k, (colours.lookup k).any Colour.isBlue = true → k = size before ∨ k = size before + 1 + size inside) →
      beside = some (size before) ∨ beside = some (size before + 1 + size inside) → OnePair beside colours us

namespace OnePair

variable {beside : Option Nat} {colours new : List Paint} {us vs : List Char}

/-- More text, none of it painted blue. -/
theorem paint (h : OnePair beside colours us) (hnew : ∀ p ∈ new, p.2.isBlue = false) (vs : List Char) :
    OnePair beside (colours ++ new) (us ++ vs) := by
  have hlookup (k : Nat) :
      ((colours ++ new).lookup k).any Colour.isBlue = (colours.lookup k).any Colour.isBlue := by
    rw [List.lookup_append]
    cases colours.lookup k with
    | some colour => rfl
    | none =>
      cases hk : new.lookup k with
      | none => rfl
      | some colour => exact hnew (k, colour) (mem_of_lookup hk)
  cases h with
  | none h => exact .none fun k => (hlookup k).trans (h k)
  | @one before o inside c after hus hm ho hc honly hbeside =>
    have hus' : us ++ vs = before ++ o :: (inside ++ c :: (after ++ vs)) := by simp [hus]
    refine .one hus' hm ?_ ?_ (fun k hk => honly k (hlookup k ▸ hk)) hbeside
    · rw [List.lookup_append, ho, Option.some_or]
    · rw [List.lookup_append, hc, Option.some_or]

/-- Where neither bracket of a pair is painted, but the cursor is beside it, nothing is blue. -/
theorem not_blue (h : OnePair beside colours us) {k : Nat} (hbeside : beside = some k)
    (hk : colours.lookup k = Option.none) (k' : Nat) : (colours.lookup k').any Colour.isBlue = false := by
  cases h with
  | none h => exact h k'
  | one _ _ ho hc _ hbeside' =>
    rw [hbeside] at hbeside'
    rcases hbeside' with hb | hb <;> cases hb
    · cases hk.symm.trans ho
    · cases hk.symm.trans hc

theorem pair {before inside : List Char} {o c : Char} (h : OnePair beside colours (before ++ o :: inside))
    (hm : Matched before o inside c) (ho : colours.lookup (size before) = Option.none)
    (hc : colours.lookup (size before + 1 + size inside) = Option.none)
    (hbeside : beside = some (size before + 1 + size inside) ∨ beside = some (size before)) :
    OnePair beside (colours ++ [(size before + 1 + size inside, .blue), (size before, .boldBlue)])
      (before ++ o :: inside ++ [c]) := by
  have hnone (k : Nat) : (colours.lookup k).any Colour.isBlue = false :=
    hbeside.elim (h.not_blue · hc k) (h.not_blue · ho k)
  obtain ⟨hbold, hblue⟩ := @lookup_pair colours _ _ .blue .boldBlue (by omega) ho hc
  have hus : before ++ o :: inside ++ [c] = before ++ o :: (inside ++ [c]) := List.append_assoc ..
  refine .one hus hm hbold hblue (fun k hk => ?_) hbeside.symm
  refine Classical.byContradiction fun hnot => ?_
  rw [not_or] at hnot
  rw [lookup_append_of_ne (by simp [Ne.symm hnot.1, Ne.symm hnot.2]), hnone] at hk
  cases hk

end OnePair

/-! ## Steps -/

def paintAt (offset : Nat) : Option Colour → List Paint
  | some colour => [(offset, colour)]
  | none => []

theorem of_mem_paintAt {o : Nat} {colour : Option Colour} {p : Paint} (h : p ∈ paintAt o colour) :
    p.1 = o ∧ colour = some p.2 := by
  cases colour with
  | none => cases h
  | some colour =>
    cases List.mem_singleton.1 h
    exact ⟨rfl, rfl⟩

theorem lookup_paintAt (o : Nat) (colour : Option Colour) : (paintAt o colour).lookup o = colour := by
  cases colour <;> simp [paintAt]

namespace Writing

/-- What is open, as the colours are decided by it. -/
def brackets (w : Writing) : List (Char × Nat) := w.opened.map fun b => (b.bracket, b.column)

/-- Behind a text, what is written are its colours so far. -/
structure Follows (w : Writing) (beside : Option Nat) (colours : List Paint) (us : List Char) : Prop where
  text : w.text = written colours us
  inString : w.inString = stringBehind false us
  held : Held colours w.opened us
  painted : ∀ p ∈ colours, p.1 < size us
  onePair : OnePair beside colours us

variable {w : Writing} {beside : Option Nat} {colours : List Paint} {us : List Char} {c : Char}

theorem follows_start (beside : Option Nat) : start.Follows beside [] [] :=
  ⟨rfl, rfl, .nil, by simp, .none fun _ => rfl⟩

namespace Follows

/-- A character is written behind the others, in no colour or in one that is not blue. -/
theorem snoc (h : w.Follows beside colours us) (colour : Option Colour) (hblue : colour.any Colour.isBlue = false)
    {opened : List Opened} (hheld : Held (colours ++ paintAt (size us) colour) opened (us ++ [c]))
    {inString : Bool} (hs : inString = (w.inString ^^ (c = '"'))) :
    Follows ⟨inString, opened, w.text ++ Cell.text ⟨c, colour⟩⟩ beside (colours ++ paintAt (size us) colour)
      (us ++ [c]) := by
  have hnew : ∀ p ∈ paintAt (size us) colour, size us ≤ p.1 := fun p hp => (of_mem_paintAt hp).1.ge
  refine ⟨?_, ?_, hheld, fun p hp => ?_, h.onePair.paint (fun p hp => ?_) [c]⟩
  · rw [written_append, written_paint hnew, h.text, coloured, List.lookup_append,
      lookup_eq_none_of_lt h.painted, Option.none_or, lookup_paintAt]
    simp [coloured]
  · rw [stringBehind_append, ← h.inString, hs]
    rfl
  · have hc := c.utf8Size_pos
    simp only [Text.size_append, Text.size_cons]
    rcases List.mem_append.1 hp with hp | hp
    · have := h.painted p hp
      omega
    · have := (of_mem_paintAt hp).1
      omega
  · rw [(of_mem_paintAt hp).2] at hblue
    exact hblue

/-- Behind the bracket that was opened last there is no open string. -/
theorem inside_outside {before inside : List Char} {o : Char}
    (h : w.Follows beside colours (before ++ o :: inside)) (hs : w.inString = false) (ho : isOpening o = true)
    (hout : stringBehind false before = false) :
    stringBehind false inside = false := by
  have hin := h.inString
  rw [hs, stringBehind_append, hout, stringBehind_bracket ho] at hin
  exact hin.symm

/-- What stands in front of two brackets that close each other is still open behind them. -/
theorem held_pair {before inside : List Char} {bs : List Opened} {o : Char} {new : List Paint}
    (hbefore : Held colours bs before) (hout : stringBehind false before = false)
    (hnew : ∀ p ∈ new, size before ≤ p.1) (ho : isOpening o = true) (hc : isClosing c = true)
    (hi : stringBehind false inside = false) (hb : Balanced anyPair (bracketsOutside false inside)) :
    Held (colours ++ new) bs (before ++ o :: inside ++ [c]) := by
  rw [List.append_assoc, List.cons_append]
  refine (hbefore.paint hnew).append ?_
  rw [hout, bracketsOutside_pair ho hc hi]
  exact .pair (by rw [anyPair, ho, hc]; rfl) hb

/-- A bracket is written and the one that it closes is coloured. -/
theorem recolour {before inside : List Char} {bs : List Opened} {o : Char}
    (h : w.Follows beside colours (before ++ o :: inside)) (hs : w.inString = false) (ho : isOpening o = true)
    (hc : isClosing c = true) (hbefore : Held colours bs before) (hout : stringBehind false before = false)
    (hl : colours.lookup (size before) = none) (hb : Balanced anyPair (bracketsOutside false inside))
    (colour bold : Colour)
    (hpair : OnePair beside (colours ++ [(size before + 1 + size inside, colour), (size before, bold)])
      (before ++ o :: inside ++ [c])) :
    ∃ w', (({ w with opened := bs } : Writing).put (some colour) c).recolour?
        ⟨o, size before, size (written colours before)⟩ bold = some w' ∧ w'.inString = false ∧ w'.opened = bs ∧
      w'.Follows beside (colours ++ [(size before + 1 + size inside, colour), (size before, bold)])
        (before ++ o :: inside ++ [c]) := by
  have hlast := lookup_eq_none_of_lt h.painted
  rw [Text.size_append, Text.size_cons, (isOpening_cases ho).1, ← Nat.add_assoc] at hlast
  have htext := @written_pair colours before inside o c colour bold (isOpening_cases ho).1 hl hlast
  rw [← List.cons_append, ← List.append_assoc] at htext
  have hold : w.text =
      written colours before ++ o :: (coloured colours (size before + 1) inside).flatMap Cell.text := by
    rw [h.text, written_append, coloured, hl, (isOpening_cases ho).1]
    rfl
  have hnew : ∀ p ∈ [(size before + 1 + size inside, colour), (size before, bold)],
      size before ≤ p.1 ∧ p.1 ≤ size before + 1 + size inside := by simp [Nat.add_assoc]
  refine ⟨⟨w.inString, bs, _⟩, ?_, hs, rfl, htext.symm, ?_,
    held_pair hbefore hout (fun p hp => (hnew p hp).1) ho hc (h.inside_outside hs ho hout) hb,
    fun p hp => ?_, hpair⟩
  · rw [recolour?, put, hold, List.append_assoc, List.cons_append,
      replaceByte?_append _ _ (isOpening_cases ho).1]
    rfl
  · rw [stringBehind_append, ← h.inString, hs, stringBehind, decide_eq_false (isClosing_cases hc).2]
    rfl
  · have hc := c.utf8Size_pos
    rw [List.append_assoc, List.cons_append, Text.size_append, Text.size_cons, (isOpening_cases ho).1,
      Text.size_append, Text.size_cons]
    rcases List.mem_append.1 hp with hp | hp
    · have := h.painted p hp
      simp only [Text.size_append, Text.size_cons, (isOpening_cases ho).1] at this
      omega
    · have := (hnew p hp).2
      omega

/-- What a closing bracket paints and writes. -/
theorem step_closing (h : w.Follows beside colours us) (hin : w.inString = false) (hc : isClosing c = true) :
    ∃ w' new, w.step? beside (size us) c = some w' ∧
      paint beside w.inString w.brackets (size us) c = (new, w'.inString, w'.brackets) ∧
      w'.Follows beside (colours ++ new) (us ++ [c]) := by
  have hs : ¬ w.inString = true := by simp [hin]
  obtain ⟨ho, hq⟩ := isClosing_cases hc
  have hxor : w.inString = (w.inString ^^ (c = '"')) := by simp [hq]
  rw [step?.eq_def, paint.eq_def, if_neg hs, if_neg hs, if_neg hq, if_neg hq, ho, if_neg Bool.false_ne_true,
    if_neg Bool.false_ne_true, if_pos hc, if_pos hc, brackets]
  have hheld := h.held
  cases hopened : w.opened with
  | nil =>
    refine ⟨_, _, rfl, ?_, h.snoc (some .red) rfl (by rw [hopened]; exact .nil) hxor⟩
    rw [put, brackets, hopened, hin]
    rfl
  | cons b bs =>
    rw [hopened] at hheld
    cases hheld with
    | @cons _ before o inside hbefore ho hout hl hb =>
      have hi := h.inside_outside hin ho hout
      have hsize : size (before ++ o :: inside) = size before + 1 + size inside := by
        rw [Text.size_append, Text.size_cons, (isOpening_cases ho).1, Nat.add_assoc]
      have hrecolour := h.recolour hin ho hc hbefore hout hl hb
      rw [hsize, List.map_cons]
      dsimp only
      split
      · next hp =>
        split
        · next hbeside =>
          have hlast := lookup_eq_none_of_lt h.painted
          rw [hsize] at hlast
          obtain ⟨w', hw', hs', ho', hfollows⟩ :=
            hrecolour .blue .boldBlue (h.onePair.pair ⟨hp, hout, hi, hb⟩ hl hlast hbeside)
          exact ⟨w', _, hw', by rw [hs', brackets, ho'], hfollows⟩
        · have hheld : Held (colours ++ paintAt (size (before ++ o :: inside)) none) bs
              (before ++ o :: inside ++ [c]) :=
            held_pair hbefore hout (by simp [paintAt]) ho hc hi hb
          exact ⟨_, _, rfl, by rw [put, hin]; rfl, h.snoc none rfl hheld hxor⟩
      · obtain ⟨w', hw', hs', ho', hfollows⟩ :=
          hrecolour .red .boldRed (h.onePair.paint (by simp [Colour.isBlue]) [c])
        exact ⟨w', _, hw', by rw [hs', brackets, ho'], hfollows⟩

/-- What one character paints and writes. -/
theorem step (h : w.Follows beside colours us) (c : Char) :
    ∃ w' new, w.step? beside (size us) c = some w' ∧
      paint beside w.inString w.brackets (size us) c = (new, w'.inString, w'.brackets) ∧
      w'.Follows beside (colours ++ new) (us ++ [c]) := by
  have stays (hplain : bracketsOutside w.inString [c] = []) (colour : Option Colour) :
      Held (colours ++ paintAt (size us) colour) w.opened (us ++ [c]) := by
    refine (h.held.paint fun p hp => (of_mem_paintAt hp).1.ge).append ?_
    rw [← h.inString, hplain]
    exact .nil
  by_cases hs : w.inString = true
  · rw [step?, paint.eq_def, if_pos hs, if_pos hs]
    have hplain : bracketsOutside w.inString [c] = [] := by simp [bracketsOutside, hs]
    exact ⟨_, _, rfl, rfl, h.snoc (some .green) rfl (stays hplain _) (by simp [hs])⟩
  have hin : w.inString = false := Bool.eq_false_of_not_eq_true hs
  by_cases hc : isClosing c = true
  · exact h.step_closing hin hc
  rw [step?.eq_def, paint.eq_def, if_neg hs, if_neg hs]
  by_cases hq : c = '"'
  · rw [if_pos hq, if_pos hq]
    have hplain : bracketsOutside w.inString [c] = [] := by
      subst hq
      cases w.inString <;> rfl
    have hquote : true = (w.inString ^^ (c = '"')) := by simp [hs, hq]
    exact ⟨_, _, rfl, rfl, h.snoc (some .green) rfl (stays hplain _) hquote⟩
  rw [if_neg hq, if_neg hq]
  have hxor : w.inString = (w.inString ^^ (c = '"')) := by simp [hq]
  by_cases ho : isOpening c = true
  · rw [if_pos ho, if_pos ho]
    have hheld : Held (colours ++ paintAt (size us) none) (⟨c, size us, size w.text⟩ :: w.opened) (us ++ [c]) := by
      rw [paintAt, List.append_nil, h.text]
      exact .cons h.held ho (h.inString ▸ hin) (lookup_eq_none_of_lt h.painted) .nil
    exact ⟨_, _, rfl, by rw [← hin]; rfl, h.snoc none rfl hheld hxor⟩
  · rw [if_neg ho, if_neg ho, if_neg hc, if_neg hc]
    have hplain : bracketsOutside w.inString [c] = [] := by simp [bracketsOutside, ho, hc]
    exact ⟨_, _, rfl, by rw [← hin]; rfl, h.snoc none rfl (stays hplain _) hxor⟩

end Follows

theorem Follows.run (h : w.Follows beside colours us) (cs : List Char) :
    ∃ w', w.run? beside (size us) cs = some w' ∧
      w'.Follows beside (colours ++ paints beside w.inString w.brackets (size us) cs) (us ++ cs) := by
  induction cs generalizing w colours us with
  | nil => exact ⟨w, rfl, by simpa [paints] using h⟩
  | cons c cs ih =>
    obtain ⟨w', new, hstep, hpaint, hw'⟩ := h.step c
    obtain ⟨w'', hrun, hw''⟩ := ih hw'
    rw [Text.size_append, Text.size_cons, Text.size_nil, Nat.add_zero] at hrun hw''
    refine ⟨w'', ?_, ?_⟩
    · rw [run?, hstep]
      exact hrun
    · rw [paints, hpaint, ← List.append_assoc, List.append_cons us]
      exact hw''

end Writing

/-! ## Lines -/

/-- The bracket stands where it is held, in the line and in what is written of it: the front of the one is the
front of the other with colours. -/
def Opened.StandsIn (b : Opened) (line text : List Char) : Prop :=
  isOpening b.bracket = true ∧ b.bracket.utf8Size = 1 ∧
    ∃ before after front rest, line = before ++ b.bracket :: after ∧ size before = b.column ∧
      text = front ++ b.bracket :: rest ∧ size front = b.place ∧ withoutSequences false front = before

theorem Held.standsIn {colours : List Paint} {bs : List Opened} {us : List Char} (h : Held colours bs us)
    (hesc : '\x1b' ∉ us) : ∀ b ∈ bs, b.StandsIn us (written colours us) := by
  induction h with
  | nil => simp
  | @cons bs before c inside _ ho _ hl _ ih =>
    obtain ⟨hesc, -⟩ : '\x1b' ∉ before ∧ '\x1b' ∉ c :: inside := by simpa only [List.mem_append, not_or] using hesc
    refine List.forall_mem_cons.2 ⟨?_, fun b hb => ?_⟩
    · refine ⟨ho, (isOpening_cases ho).1, before, inside, written colours before,
        (coloured colours (size before + c.utf8Size) inside).flatMap Cell.text, rfl, rfl, ?_, rfl,
        withoutSequences_written hesc colours⟩
      rw [written_append, coloured, hl]
      rfl
    · obtain ⟨ho, hsize, before', after, front, rest, hus, hcolumn, htext, hplace, hfront⟩ := ih hesc b hb
      refine ⟨ho, hsize, before', after ++ c :: inside, front,
        rest ++ (coloured colours (size before) (c :: inside)).flatMap Cell.text, ?_, hcolumn, ?_, hplace, hfront⟩
      · rw [hus, List.append_assoc, List.cons_append]
      · rw [written_append, htext, List.append_assoc, List.cons_append]

/-- No character is blue, or only two brackets that match, behind one of which the cursor stands. -/
def BluePair (cells : List Cell) (cursor : Nat) : Prop :=
  (∀ cell ∈ cells, cell.isBlue = false) ∨
    ∃ before o inside c after, cells = before ++ ⟨o, some .boldBlue⟩ :: (inside ++ ⟨c, some .blue⟩ :: after) ∧
      (∀ cell ∈ before ++ inside ++ after, cell.isBlue = false) ∧
      Matched (before.map Cell.char) o (inside.map Cell.char) c ∧
      (cursor = size (before.map Cell.char) + 1 ∨
        cursor = size (before.map Cell.char) + 1 + size (inside.map Cell.char) + 1)

theorem placeBeside_eq_some {cursor k : Nat} : placeBeside cursor = some k ↔ cursor = k + 1 := by
  rw [placeBeside]
  split
  · simp only [reduceCtorEq, false_iff]
    omega
  · rw [Option.some.injEq]
    omega

theorem OnePair.bluePair {colours : List Paint} {line : List Char} {cursor : Nat}
    (h : OnePair (placeBeside cursor) colours line) : BluePair (coloured colours 0 line) cursor := by
  cases h with
  | none h =>
    refine .inl fun cell hcell => ?_
    obtain ⟨us, vs, -, hcolour⟩ := exists_of_mem_coloured hcell
    rw [Cell.isBlue, hcolour, h]
  | @one before o inside c after hline hm ho hc honly hbeside =>
    have ho1 := (isOpening_cases (isPair_cases hm.isPair).1).1
    -- outside of the two places nothing is blue
    have hplain {k : Nat} {us : List Char} {cell : Cell} (hcell : cell ∈ coloured colours k us)
        (hout : ∀ k', k ≤ k' → k' < k + size us → k' ≠ size before ∧ k' ≠ size before + 1 + size inside) :
        cell.isBlue = false := by
      obtain ⟨vs, ws, rfl, hcolour⟩ := exists_of_mem_coloured hcell
      have hpos := cell.char.utf8Size_pos
      rw [Text.size_append, Text.size_cons] at hout
      obtain ⟨hne, hne'⟩ := hout (k + size vs) (by omega) (by omega)
      rw [Cell.isBlue, hcolour]
      exact Bool.eq_false_of_not_eq_true fun hblue => (honly _ hblue).elim hne hne'
    refine .inr ⟨coloured colours 0 before, o, coloured colours (size before + 1) inside, c,
      coloured colours (size before + 1 + size inside + c.utf8Size) after, ?_, fun cell hcell => ?_, ?_, ?_⟩
    · rw [hline, coloured_append, Nat.zero_add, coloured, ho, ho1, coloured_append, coloured, hc]
    · have hc' := c.utf8Size_pos
      simp only [List.mem_append] at hcell
      obtain (hcell | hcell) | hcell := hcell
      · exact hplain hcell fun k' _ _ => by omega
      · exact hplain hcell fun k' _ _ => by omega
      · exact hplain hcell fun k' _ _ => by omega
    · rw [map_char_coloured, map_char_coloured]
      exact hm
    · rw [map_char_coloured, map_char_coloured]
      exact hbeside.imp placeBeside_eq_some.1 placeBeside_eq_some.1

theorem highlight?_eq (line : String) (cursor : Nat) :
    highlight? line cursor = some (.ofList ((cells line.toList cursor).flatMap Cell.text)) := by
  obtain ⟨w, hrun, hw⟩ := (Writing.follows_start (placeBeside cursor)).run line.toList
  rw [Text.size_nil] at hrun
  rw [highlight?, hrun, Option.map_some, hw.text]
  rfl

/-- Highlighting adds to a line colours of single characters and nothing else, and the open brackets are held
where they stand, so none is missed when it is coloured later. -/
theorem highlight?_keeps_line {line : String} (h : '\x1b' ∉ line.toList) (cursor : Nat) :
    ∃ text, highlight? line cursor = some text ∧ withoutSequences false text.toList = line.toList ∧
      (∃ cells : List Cell, text.toList = cells.flatMap Cell.text ∧ cells.map Cell.char = line.toList ∧
        BluePair cells cursor) ∧
      ∀ us vs, line.toList = us ++ vs → ∃ w, Writing.start.run? (placeBeside cursor) 0 us = some w ∧
        ∀ b ∈ w.opened, b.StandsIn us w.text := by
  have hfollows := (Writing.follows_start (placeBeside cursor)).run
  obtain ⟨_, _, hw⟩ := hfollows line.toList
  have hpair : BluePair (cells line.toList cursor) cursor := hw.onePair.bluePair
  refine ⟨_, highlight?_eq line cursor, ?_, ⟨_, String.toList_ofList, map_char_coloured _ 0 _, hpair⟩, ?_⟩
  · rw [String.toList_ofList]
    exact withoutSequences_written h _
  · intro us vs hus
    obtain ⟨w, hrun, hw⟩ := hfollows us
    have hesc : '\x1b' ∉ us := fun hmem => h (hus ▸ List.mem_append_left vs hmem)
    exact ⟨w, hrun, hw.text ▸ hw.held.standsIn hesc⟩

/-- The pair is blue around a string and another pair, behind a character of two bytes. -/
theorem highlight?_keeps_line_nested :
    let line := "é(\"(\"[x])"
    let text := "é\x1b[1;34m(\x1b[0m\x1b[32m\"\x1b[0m\x1b[32m(\x1b[0m\x1b[32m\"\x1b[0m[x]\x1b[34m)\x1b[0m"
    '\x1b' ∉ line.toList ∧ highlight? line 3 = some text ∧ withoutSequences false text.toList = line.toList ∧
      ∃ cells : List Cell, text.toList = cells.flatMap Cell.text ∧ cells.map Cell.char = line.toList ∧
        BluePair cells 3 := by
  intro line text
  have hesc : '\x1b' ∉ line.toList := by decide +kernel
  have htext : highlight? line 3 = some text := by decide +kernel
  obtain ⟨text', htext', hwithout, hcells, -⟩ := highlight?_keeps_line hesc 3
  cases htext.symm.trans htext'
  exact ⟨hesc, htext, hwithout, hcells⟩

end RavenLang.Shell
