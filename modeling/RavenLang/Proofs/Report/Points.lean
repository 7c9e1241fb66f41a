import RavenLang.Proofs.Evaluation.Failures
import RavenLang.Proofs.Number.Whole
import RavenLang.Report

/-!
# Where reports point

The header of a report names a line and a column. It takes the offset of a failure, which counts bytes,
for one that counts characters.
-/

namespace RavenLang

namespace Report

/-! ## Lines -/

/-- The line and the column, counted from one, at which a character of a text stands. The characters are
counted from zero. -/
def Stands (cs : List Char) (index line column : Nat) : Prop :=
  ∃ before l after i, splitLines cs = before ++ l :: after ∧ i < l.length ∧ index = before.flatten.length + i ∧
    line = before.length + 1 ∧ column = i + 1

theorem exists_stands {cs : List Char} {index : Nat} (h : index < cs.length) :
    ∃ line column, Stands cs index line column := by
  have split (ls : List (List Char)) (hi : index < ls.flatten.length) :
      ∃ before l after i, ls = before ++ l :: after ∧ i < l.length ∧ index = before.flatten.length + i := by
    clear h
    induction ls generalizing index with
    | nil => exact absurd hi (Nat.not_lt_zero _)
    | cons l ls ih =>
      by_cases hl : index < l.length
      · exact ⟨[], l, ls, index, rfl, hl, (Nat.zero_add _).symm⟩
      · rw [List.flatten_cons, List.length_append] at hi
        obtain ⟨before, l', after, i, rfl, hi, he⟩ := ih (by omega : index - l.length < ls.flatten.length)
        refine ⟨l :: before, l', after, i, rfl, hi, ?_⟩
        rw [List.flatten_cons, List.length_append]
        omega
  rw [← flatten_splitLines cs] at h
  obtain ⟨before, l, after, i, hs, hi, he⟩ := split _ h
  exact ⟨_, _, before, l, after, i, hs, hi, he, rfl, rfl⟩

theorem place_append (number start : Nat) (as bs : List (List Char)) :
    place number start (as ++ bs) =
      place number start as ++ place (number + as.length) (start + as.flatten.length) bs := by
  induction as generalizing number start with
  | nil => rfl
  | cons a as ih =>
    simp only [List.cons_append, place, ih, List.length_cons, List.flatten_cons, List.length_append]
    rw [Nat.add_right_comm number, Nat.add_assoc number, Nat.add_assoc start]

theorem start_le_of_mem_place {number start : Nat} {ls : List (List Char)} {l : SourceLine}
    (h : l ∈ place number start ls) : start ≤ l.start := by
  induction ls generalizing number start with
  | nil => cases h
  | cons l' ls ih =>
    rcases List.mem_cons.1 h with rfl | h
    · exact Nat.le_refl _
    · exact Nat.le_trans (Nat.le_add_right _ _) (ih h)

theorem exists_of_mem_place {number start : Nat} {ls : List (List Char)} {l : SourceLine}
    (h : l ∈ place number start ls) :
    ∃ before after, ls = before ++ l.chars :: after ∧ l.number = number + before.length ∧
      l.start = start + before.flatten.length := by
  induction ls generalizing number start with
  | nil => cases h
  | cons l' ls ih =>
    rcases List.mem_cons.1 h with rfl | h
    · exact ⟨[], ls, rfl, rfl, rfl⟩
    · obtain ⟨before, after, rfl, hnumber, hstart⟩ := ih h
      refine ⟨l' :: before, after, rfl, ?_, ?_⟩
      · rw [hnumber, List.length_cons]
        omega
      · rw [hstart, List.flatten_cons, List.length_append, Nat.add_assoc]

theorem lineAt?_eq_some {lines : List SourceLine} {size offset : Nat} {l : SourceLine}
    (h : lineAt? lines size offset = some l) : offset ≤ size ∧ l ∈ lines ∧ l.start ≤ offset := by
  unfold lineAt? at h
  split at h
  · cases h
  · next hle =>
    obtain ⟨hl, hs⟩ := List.mem_filter.1 (List.mem_of_getLast? h)
    exact ⟨Nat.not_lt.1 hle, hl, of_decide_eq_true hs⟩

theorem lineAt?_append_cons {before after : List SourceLine} {l : SourceLine} {size offset : Nat}
    (hsize : offset ≤ size) (hl : l.start ≤ offset) (hafter : ∀ m ∈ after, offset < m.start) :
    lineAt? (before ++ l :: after) size offset = some l := by
  have hnone : after.filter (·.start ≤ offset) = [] :=
    List.filter_eq_nil_iff.2 fun m hm => by simpa using hafter m hm
  rw [lineAt?, if_neg (Nat.not_lt.2 hsize), List.filter_append, List.filter_cons_of_pos (by simpa using hl), hnone]
  simp

theorem exists_linesOf (cs : List Char) : ∃ l ls, linesOf cs = ⟨1, 0, l⟩ :: ls := by
  have hne : (if cs.isEmpty then [[]] else splitLines cs) ≠ [] := by
    split
    · exact List.cons_ne_nil _ _
    · next hcs =>
      intro h
      have hflat := flatten_splitLines cs
      rw [h] at hflat
      exact hcs (by rw [← hflat]; rfl)
  obtain ⟨l, ls, hl⟩ := List.exists_cons_of_ne_nil hne
  exact ⟨l, _, by rw [linesOf, hl]; rfl⟩

/-- Every offset up to the end of a text is in some line. -/
theorem exists_lineAt? (cs : List Char) {size offset : Nat} (h : offset ≤ size) :
    ∃ l, lineAt? (linesOf cs) size offset = some l := by
  obtain ⟨l, ls, hl⟩ := exists_linesOf cs
  rw [hl, lineAt?, if_neg (Nat.not_lt.2 h), List.filter_cons_of_pos (by simp)]
  exact ⟨_, List.getLast?_eq_some_getLast (List.cons_ne_nil _ _)⟩

namespace Stands

variable {cs : List Char} {index line column size : Nat}

theorem linesOf_eq (h : Stands cs index line column) : linesOf cs = Report.place 1 0 (splitLines cs) := by
  obtain ⟨before, l, after, -, hs, -⟩ := h
  rw [linesOf, if_neg]
  intro hcs
  rw [List.isEmpty_iff.1 hcs] at hs
  exact List.append_ne_nil_of_right_ne_nil _ (List.cons_ne_nil _ _) hs.symm

/-- The line of a character, and its column in it. -/
theorem exists_line (h : Stands cs index line column) (hsize : index ≤ size) :
    ∃ l, lineAt? (linesOf cs) size index = some l ∧ index < l.stop ∧ line = l.number ∧
      column = index - l.start + 1 := by
  have hlines := h.linesOf_eq
  obtain ⟨before, l, after, i, hs, hi, rfl, rfl, rfl⟩ := h
  rw [hlines, hs, place_append, place, Nat.zero_add]
  refine ⟨_, lineAt?_append_cons hsize (Nat.le_add_right _ _) fun m hm => ?_, Nat.add_lt_add_left hi _,
    Nat.add_comm _ _, ?_⟩
  · have := start_le_of_mem_place hm
    omega
  · rw [Nat.add_sub_cancel_left]

/-- No other offset has the line and the column of the character. -/
theorem offset_eq {l : SourceLine} {offset : Nat} (hl : lineAt? (linesOf cs) size offset = some l)
    (h : Stands cs index l.number (offset - l.start + 1)) : offset = index := by
  obtain ⟨-, hmem, hle⟩ := lineAt?_eq_some hl
  rw [h.linesOf_eq] at hmem
  obtain ⟨before, after, hs, hnumber, hstart⟩ := exists_of_mem_place hmem
  obtain ⟨before', l', after', i, hs', -, hindex, hline, hcolumn⟩ := h
  have hbefore : before = before' :=
    (List.append_inj (hs.symm.trans hs') (by omega)).1
  subst hbefore
  omega

end Stands

/-! ## Headers -/

/-- The report has this headline, and a header that names this line and this column. -/
def Headed (report headline id : String) (line column : Nat) : Prop :=
  ∃ margin rest, report.toList = ("Error: " ++ headline).toList ++ '\n' ::
    (spaces margin ++ "╭─[ ".toList ++ id.toList ++ ':' :: decimal line ++ ':' :: decimal column ++
      " ]\n".toList ++ rest)

theorem append_inj_of_runs {α : Type} {p : α → Bool} {us vs xs ys : List α} (h : us ++ vs = xs ++ ys)
    (hu : ∀ c ∈ us, p c = true) (hv : ∀ c, vs.head? = some c → p c = false) (hx : ∀ c ∈ xs, p c = true)
    (hy : ∀ c, ys.head? = some c → p c = false) : us = xs ∧ vs = ys := by
  have huv := run_append hu hv
  rw [h] at huv
  have hxy := run_append hx hy
  exact ⟨huv.1.symm.trans hxy.1, huv.2.symm.trans hxy.2⟩

theorem decimal_append_inj {a b : Nat} {us vs : List Char} (h : decimal a ++ us = decimal b ++ vs)
    (hu : ∀ c, us.head? = some c → c.isDigit = false) (hv : ∀ c, vs.head? = some c → c.isDigit = false) :
    a = b ∧ us = vs := by
  have hdigits (n : Nat) : ∀ c ∈ decimal n, c.isDigit = true := (Number.isDigits_digitChars n).2
  obtain ⟨hd, he⟩ := append_inj_of_runs h (hdigits a) hu (hdigits b) hv
  refine ⟨?_, he⟩
  rw [← Number.digitsValue_digitChars a, ← Number.digitsValue_digitChars b]
  exact congrArg Number.digitsValue hd

theorem header_inj {m m' a a' b b' : Nat} {id us vs : List Char}
    (h : spaces m ++ "╭─[ ".toList ++ id ++ ':' :: decimal a ++ ':' :: decimal b ++ " ]\n".toList ++ us =
      spaces m' ++ "╭─[ ".toList ++ id ++ ':' :: decimal a' ++ ':' :: decimal b' ++ " ]\n".toList ++ vs) :
    a = a' ∧ b = b' ∧ us = vs := by
  have hspaces (n : Nat) : ∀ c ∈ spaces n, decide (c = ' ') = true := fun c hc =>
    decide_eq_true (List.eq_of_mem_replicate hc)
  simp only [List.append_assoc] at h
  have hrest := (append_inj_of_runs h (hspaces m) (by simp) (hspaces m') (by simp)).2
  have hid := List.append_cancel_left (List.append_cancel_left hrest)
  obtain ⟨ha, hrest⟩ := decimal_append_inj (List.cons.inj hid).2 (by simp) (by simp)
  obtain ⟨hb, hrest⟩ := decimal_append_inj (List.cons.inj hrest).2 (by simp) (by simp)
  exact ⟨ha, hb, List.append_cancel_left hrest⟩

/-- The rows under the header, which is that of the first of these lines. -/
def rowsBelow (source : List Char) (d : Diagnostic) (first last : SourceLine) : List (List Char) :=
  let s := marked d.span
  let margin := (decimal last.number).length
  (spaces (margin + 2) ++ ['│']) ::
    (if first.number = last.number then singleLine margin first s d.label.toList
    else multiLine margin ((linesOf source).filter fun l => first.number ≤ l.number ∧ l.number ≤ last.number) s
      d.label.toList) ++
    [footer margin]

section
variable {id source : String} {d : Diagnostic}

theorem text_eq : (text id source d).toList = ("Error: " ++ d.headline).toList ++ '\n' ::
    (body id.toList source.toList d).flatMap (· ++ ['\n']) := by
  rw [text, String.toList_ofList, List.flatMap_cons, List.append_assoc]
  rfl

theorem text_of_lines {first last : SourceLine}
    (hfirst : lineAt? (linesOf source.toList) source.toList.length (marked d.span).start = some first)
    (hlast : lineAt? (linesOf source.toList) source.toList.length ((marked d.span).stop - 1) = some last) :
    (text id source d).toList = ("Error: " ++ d.headline).toList ++ '\n' ::
      (spaces ((decimal last.number).length + 2) ++ "╭─[ ".toList ++ id.toList ++ ':' :: decimal first.number ++
        ':' :: decimal ((marked d.span).start - first.start + 1) ++ " ]\n".toList ++
        (rowsBelow source.toList d first last).flatMap (· ++ ['\n'])) := by
  have hbody : body id.toList source.toList d =
      (spaces ((decimal last.number).length + 2) ++ "╭─[ ".toList ++ location id.toList first (marked d.span) ++
        " ]".toList) :: rowsBelow source.toList d first last := by
    rw [body]
    simp only [hfirst, hlast]
    rfl
  rw [text_eq, hbody, List.flatMap_cons, location]
  simp only [List.append_assoc, List.cons_append]
  rfl

theorem headed_text {first last : SourceLine}
    (hfirst : lineAt? (linesOf source.toList) source.toList.length (marked d.span).start = some first)
    (hlast : lineAt? (linesOf source.toList) source.toList.length ((marked d.span).stop - 1) = some last) :
    Headed (text id source d) d.headline id first.number ((marked d.span).start - first.start + 1) :=
  ⟨_, _, text_of_lines hfirst hlast⟩

theorem body_eq_nil
    (h : lineAt? (linesOf source.toList) source.toList.length (marked d.span).start = none ∨
      lineAt? (linesOf source.toList) source.toList.length ((marked d.span).stop - 1) = none) :
    body id.toList source.toList d = [] := by
  rw [body]
  simp only
  split
  · next hfirst hlast => simp [hfirst, hlast] at h
  · rfl

theorem not_headed_of_body {line column : Nat} (h : body id.toList source.toList d = []) :
    ¬ Headed (text id source d) d.headline id line column := by
  rintro ⟨margin, rest, he⟩
  rw [text_eq, h] at he
  have hnil := List.append_cancel_left he
  simp at hnil

/-- The header names the line and the column of the offset that the span begins with. -/
theorem headed_text_iff {line column : Nat} :
    Headed (text id source d) d.headline id line column ↔
      ∃ first last,
        lineAt? (linesOf source.toList) source.toList.length (marked d.span).start = some first ∧
        lineAt? (linesOf source.toList) source.toList.length ((marked d.span).stop - 1) = some last ∧
        line = first.number ∧ column = (marked d.span).start - first.start + 1 := by
  constructor
  · intro h
    cases hfirst : lineAt? (linesOf source.toList) source.toList.length (marked d.span).start with
    | none => exact absurd h (not_headed_of_body (body_eq_nil (.inl hfirst)))
    | some first =>
      cases hlast : lineAt? (linesOf source.toList) source.toList.length ((marked d.span).stop - 1) with
      | none => exact absurd h (not_headed_of_body (body_eq_nil (.inr hlast)))
      | some last =>
        obtain ⟨margin, rest, h⟩ := h
        have hfound : Headed (text id source d) d.headline id first.number _ := headed_text hfirst hlast
        obtain ⟨margin', rest', h'⟩ := hfound
        obtain ⟨hline, hcolumn, -⟩ := header_inj (List.cons.inj (List.append_cancel_left (h.symm.trans h'))).2
        exact ⟨first, last, rfl, rfl, hline, hcolumn⟩
  · rintro ⟨first, last, hfirst, hlast, rfl, rfl⟩
    exact headed_text hfirst hlast

end

/-- A span that is not empty is pointed at exactly if it is given in characters, and ends in the text
or right behind it. -/
theorem headed_iff {id source : String} {d : Diagnostic} (hne : d.span.start ≠ d.span.stop) {index line column : Nat}
    (h : Stands source.toList index line column) (hindex : index < source.toList.length) :
    Headed (text id source d) d.headline id line column ↔
      d.span.start = index ∧ d.span.stop ≤ source.toList.length + 1 := by
  have hmarked : marked d.span = d.span := if_neg hne
  rw [headed_text_iff, hmarked]
  constructor
  · rintro ⟨first, last, hfirst, hlast, rfl, rfl⟩
    have hle := (lineAt?_eq_some hlast).1
    exact ⟨h.offset_eq hfirst, by omega⟩
  · rintro ⟨hstart, hstop⟩
    rw [hstart]
    obtain ⟨first, hfirst, -, hplace⟩ := h.exists_line (Nat.le_of_lt hindex)
    obtain ⟨last, hlast⟩ := exists_lineAt? source.toList
      (by omega : d.span.stop - 1 ≤ source.toList.length)
    exact ⟨first, last, hfirst, hlast, hplace⟩

end Report

namespace Request

open Report

/-- A report points at the character with which the failure begins if every character before it is one
byte long and the end of the failure, taken for an offset of characters, is at most one behind the text.
Otherwise it points elsewhere, or nowhere. -/
theorem report_points (r : Request) {failure : Failure}
    (h : (r.answer global .populated).outcome = .error failure) (hne : failure.span.start ≠ failure.span.stop) :
    ∃ before c after line column, r.source.toList = before ++ c :: after ∧
      Text.size before = failure.span.start ∧ Stands r.source.toList before.length line column ∧
      ∀ (functions : Functions) (id : String),
        (Headed (failure.report functions id r.source) (failure.headline functions) id line column ↔
          (∀ d ∈ before, d.utf8Size = 1) ∧ failure.span.stop ≤ r.source.toList.length + 1) ∧
        ((∀ d ∈ r.source.toList, d.utf8Size = 1) →
          Headed (failure.report functions id r.source) (failure.headline functions) id line column) := by
  obtain ⟨part, hat⟩ := failure_at h
  have hstop := hat.stop_le
  obtain ⟨before, rest, hsource, hspan⟩ := hat
  rw [Nat.zero_add] at hspan hstop
  obtain ⟨c, part, rfl⟩ : ∃ c cs, part = c :: cs := by
    refine List.exists_cons_of_ne_nil fun hpart => hne ?_
    rw [hspan, hpart]
    rfl
  have hindex : before.length < r.source.toList.length := by
    rw [hsource, List.length_append]
    simp
  have hstart : Text.size before = failure.span.start := by rw [hspan]
  obtain ⟨line, column, hstands⟩ := exists_stands hindex
  refine ⟨before, c, part ++ rest, line, column, hsource, hstart, hstands, fun functions id => ?_⟩
  have hiff : Headed (failure.report functions id r.source) (failure.headline functions) id line column ↔
      (∀ d ∈ before, d.utf8Size = 1) ∧ failure.span.stop ≤ r.source.toList.length + 1 := by
    rw [← Text.size_eq_length_iff, hstart]
    exact headed_iff (d := failure.diagnostic functions) hne hstands hindex
  refine ⟨hiff, fun hbytes => hiff.2 ⟨fun d hd => hbytes d ?_, ?_⟩⟩
  · rw [hsource]
    exact List.mem_append_left _ hd
  · rw [Text.size_eq_length_iff.2 hbytes] at hstop
    exact Nat.le_succ_of_le hstop

/-- A name on the second line. -/
theorem report_points_name :
    let r : Request := ⟨default, 1, "let a = 1;\nnope + a"⟩
    ∃ failure, (r.answer global .populated).outcome = .error failure ∧ failure.span.start ≠ failure.span.stop ∧
      ∃ before c after line column, r.source.toList = before ++ c :: after ∧
        Text.size before = failure.span.start ∧ Stands r.source.toList before.length line column ∧
        ∀ (functions : Functions) (id : String),
          Headed (failure.report functions id r.source) (failure.headline functions) id line column := by
  intro r
  obtain ⟨failure, h, hne⟩ : ∃ failure, (r.answer global .populated).outcome = .error failure ∧
      failure.span.start ≠ failure.span.stop := by
    simp only [answer, run_eq]
    decide +kernel
  have hbytes : r.source.toList.all (·.utf8Size == 1) = true := by decide +kernel
  obtain ⟨before, c, after, line, column, hsource, hstart, hstands, hheaded⟩ := report_points r h hne
  exact ⟨failure, h, hne, before, c, after, line, column, hsource, hstart, hstands,
    fun functions id => (hheaded functions id).2 (by simpa using hbytes)⟩

/-- A name behind a comment with a character of two bytes: the header names the next column. -/
theorem report_points_behind_comment :
    let r : Request := ⟨default, 1, "/*é*/ nope"⟩
    ∃ failure, (r.answer global .populated).outcome = .error failure ∧ failure.span = ⟨7, 11⟩ ∧
      Text.size "/*é*/ ".toList = 7 ∧ Stands r.source.toList "/*é*/ ".toList.length 1 7 ∧
      ∀ (functions : Functions) (id : String),
        ¬ Headed (failure.report functions id r.source) (failure.headline functions) id 1 7 := by
  intro r
  obtain ⟨failure, h, hspan⟩ : ∃ failure, (r.answer global .populated).outcome = .error failure ∧
      failure.span = ⟨7, 11⟩ := by
    simp only [answer, run_eq]
    decide +kernel
  have hstands : Stands r.source.toList "/*é*/ ".toList.length 1 7 :=
    ⟨[], r.source.toList, [], 6, by decide +kernel, by decide, by decide, rfl, rfl⟩
  refine ⟨failure, h, hspan, by decide, hstands, fun functions id hheaded => ?_⟩
  have hne : failure.span.start ≠ failure.span.stop := by rw [hspan]; decide
  have hpoints := (headed_iff (d := failure.diagnostic functions) hne hstands (by decide)).1 hheaded
  have hstart : failure.span.start = 6 := hpoints.1
  rw [hspan] at hstart
  cases hstart

end Request

end RavenLang
