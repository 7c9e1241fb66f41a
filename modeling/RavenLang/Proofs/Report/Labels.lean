import RavenLang.Proofs.Evaluation.Blame
import RavenLang.Proofs.Report.Points

/-!
# Labels of reports

A report shows its label under the line that its range ends in. A range that ends behind that line is not drawn,
and the one column that marks the end of the input is such a range.
-/

namespace RavenLang

namespace Report

/-- Under its headline and its header the report goes on with this text. -/
def Below (report headline id : String) (rest : List Char) : Prop :=
  ∃ margin line column, report.toList = ("Error: " ++ headline).toList ++ '\n' ::
    (spaces margin ++ "╭─[ ".toList ++ id.toList ++ ':' :: decimal line ++ ':' :: decimal column ++
      " ]\n".toList ++ rest)

theorem Below.unique {report headline id : String} {us vs : List Char} (hu : Below report headline id us)
    (hv : Below report headline id vs) : us = vs := by
  obtain ⟨_, _, _, hu⟩ := hu
  obtain ⟨_, _, _, hv⟩ := hv
  exact (header_inj (List.cons.inj (List.append_cancel_left (hu.symm.trans hv))).2).2.2

/-! ## Rows of marks -/

def isMark (c : Char) : Bool := [' ', '│', '┬', '╰', '─', '╭', '├', '▶'].contains c

def Marks (row : List Char) : Prop := ∀ c ∈ row, isMark c = true

theorem marks_append {us vs : List Char} : Marks (us ++ vs) ↔ Marks us ∧ Marks vs := List.forall_mem_append

theorem marks_replicate {c : Char} (h : isMark c = true) (n : Nat) : Marks (List.replicate n c) :=
  fun _ hd => List.eq_of_mem_replicate hd ▸ h

theorem marks_unnumbered (margin : Nat) : Marks (unnumbered margin) :=
  marks_append.2 ⟨marks_replicate (by decide) _, by simp [Marks, isMark]⟩

theorem marks_column {first more : Char} (hf : isMark first = true) (hm : isMark more = true) (width : Nat) :
    Marks (column width first more) := by
  cases width with
  | zero => exact List.forall_mem_nil _
  | succ n => exact List.forall_mem_cons.2 ⟨hf, marks_replicate hm n⟩

theorem marks_flatMap {is : List Nat} {f : Nat → List Char} (h : ∀ i, Marks (f i)) : Marks (is.flatMap f) := by
  intro c hc
  obtain ⟨i, -, hc⟩ := List.mem_flatMap.1 hc
  exact h i c hc

theorem marks_ite {p : Prop} [Decidable p] {us vs : List Char} (hu : Marks us) (hv : Marks vs) :
    Marks (if p then us else vs) := by
  split
  · exact hu
  · exact hv

theorem marks_underline (l : SourceLine) (s : Span) (middle : Nat) : Marks (underline l s middle) :=
  marks_flatMap fun _ => marks_ite (marks_column (by decide) (by decide) _)
    (marks_ite (marks_column (by decide) (by decide) _) (marks_column (by decide) (by decide) _))

theorem marks_arm (l : SourceLine) (s : Span) (middle : Nat) : Marks (arm l s middle) :=
  marks_flatMap fun _ => marks_ite (marks_column (by decide) (by decide) _)
    (marks_ite (marks_column (by decide) (by decide) _) (marks_column (by decide) (by decide) _))

/-! ## Labels -/

/-- Among the rows is the line as it is shown, under it a row of marks, and under that marks that the label
follows. -/
def Labelled (rows : List (List Char)) (label : List Char) (l : SourceLine) : Prop :=
  ∃ before margin arrow marks arm after,
    rows = before ++ (numbered margin l.number ++ arrow ++ shown l) :: marks :: (arm ++ ' ' :: label) :: after ∧
    Marks arrow ∧ Marks marks ∧ Marks arm

namespace Labelled

variable {rows : List (List Char)} {label : List Char} {l : SourceLine}

theorem behind (h : Labelled rows label l) (more : List (List Char)) : Labelled (more ++ rows) label l := by
  obtain ⟨before, margin, arrow, marks, arm, after, rfl, hm⟩ := h
  exact ⟨more ++ before, margin, arrow, marks, arm, after, by simp, hm⟩

theorem before (h : Labelled rows label l) (more : List (List Char)) : Labelled (rows ++ more) label l := by
  obtain ⟨before, margin, arrow, marks, arm, after, rfl, hm⟩ := h
  exact ⟨before, margin, arrow, marks, arm, after ++ more, by simp, hm⟩

theorem single {s : Span} (hs : s.stop ≤ l.stop) (margin : Nat) :
    Labelled (singleLine margin l s label) label l := by
  rw [singleLine, if_neg (Nat.not_lt.2 hs)]
  let middle := (s.start + s.stop) / 2 - l.start
  refine ⟨[], margin, [], unnumbered margin ++ underline l s middle, unnumbered margin ++ arm l s middle, [], ?_,
    List.forall_mem_nil _, marks_append.2 ⟨marks_unnumbered margin, marks_underline l s middle⟩,
    marks_append.2 ⟨marks_unnumbered margin, marks_arm l s middle⟩⟩
  rw [List.append_nil]
  rfl

/-- The last line of a longer span carries the label. -/
theorem later {s : Span} {ls : List SourceLine} (hl : l ∈ ls) (hs : l.start ≤ s.stop - 1 ∧ s.stop - 1 < l.stop)
    (margin : Nat) (gap : Bool) : Labelled (laterLines margin s label gap ls) label l := by
  induction ls generalizing gap with
  | nil => cases hl
  | cons m ls ih =>
    rw [laterLines]
    rcases List.mem_cons.1 hl with rfl | hl
    · rw [if_pos hs]
      refine ⟨[], margin, ['├', '─', '▶', ' '], unnumbered margin ++ '│' :: spaces (3 + lineCells l),
        unnumbered margin ++ '╰' :: List.replicate (3 + lineCells l) '─', laterLines margin s label gap ls, ?_,
        by simp [Marks, isMark], marks_append.2 ⟨marks_unnumbered margin, ?_⟩,
        marks_append.2 ⟨marks_unnumbered margin, ?_⟩⟩
      · simp
      · exact List.forall_mem_cons.2 ⟨by decide, marks_replicate (by decide) _⟩
      · exact List.forall_mem_cons.2 ⟨by decide, marks_replicate (by decide) _⟩
    · split
      · exact (ih hl gap).behind [_, _, _]
      · split
        · exact ih hl gap
        · exact (ih hl true).behind [_]

theorem multi {s : Span} {first : SourceLine} {ls : List SourceLine} (ho : ls.Pairwise (·.number < ·.number))
    (hfirst : first ∈ ls) (hl : l ∈ ls) (hlt : first.number < l.number)
    (hs : l.start ≤ s.stop - 1 ∧ s.stop - 1 < l.stop) (margin : Nat) :
    Labelled (multiLine margin ls s label) label l := by
  cases ls with
  | nil => cases hl
  | cons m ls =>
    rcases List.mem_cons.1 hl with rfl | hl
    · rcases List.mem_cons.1 hfirst with rfl | hfirst
      · exact absurd hlt (Nat.lt_irrefl _)
      · exact absurd hlt (Nat.lt_asymm ((List.pairwise_cons.1 ho).1 first hfirst))
    · exact (later hl hs margin false).behind [_]

end Labelled

/-! ## Lines in order -/

theorem place_ordered (number start : Nat) (ls : List (List Char)) :
    (place number start ls).Pairwise (·.number < ·.number) := by
  induction ls generalizing number start with
  | nil => exact .nil
  | cons l ls ih =>
    refine List.pairwise_cons.2 ⟨fun m hm => ?_, ih _ _⟩
    obtain ⟨before, -, -, hnumber, -⟩ := exists_of_mem_place hm
    simp only [hnumber]
    omega

theorem linesOf_ordered (cs : List Char) : (linesOf cs).Pairwise (·.number < ·.number) := place_ordered _ _ _

/-- The line of an offset is the last of those that begin at it or before. -/
theorem lineAt?_last {lines : List SourceLine} {size offset : Nat} {l m : SourceLine}
    (h : lineAt? lines size offset = some l) (ho : lines.Pairwise (·.number < ·.number)) (hm : m ∈ lines)
    (hs : m.start ≤ offset) : m = l ∨ m.number < l.number := by
  unfold lineAt? at h
  split at h
  · cases h
  · obtain ⟨init, hinit⟩ := List.getLast?_eq_some_iff.1 h
    have hfiltered := ho.filter fun m => decide (m.start ≤ offset)
    have hmem : m ∈ lines.filter fun m => decide (m.start ≤ offset) := List.mem_filter.2 ⟨hm, by simpa using hs⟩
    rw [hinit] at hfiltered hmem
    rcases List.mem_append.1 hmem with hmem | hmem
    · exact .inr ((List.pairwise_append.1 hfiltered).2.2 m hmem l List.mem_cons_self)
    · exact .inl (List.mem_singleton.1 hmem)

theorem stop_le_of_mem_linesOf {cs : List Char} {l : SourceLine} (h : l ∈ linesOf cs) : l.stop ≤ cs.length := by
  obtain ⟨before, after, hs, -, hstart⟩ := exists_of_mem_place h
  have hflat : (if cs.isEmpty then [[]] else splitLines cs).flatten = cs := by
    split
    · next hcs => rw [List.isEmpty_iff.1 hcs]; rfl
    · exact flatten_splitLines cs
  have hlength := congrArg List.length hflat
  rw [hs, List.flatten_append, List.flatten_cons, List.length_append, List.length_append] at hlength
  rw [SourceLine.stop, hstart]
  omega

/-- The line of an offset that is in the text holds it. -/
theorem lt_stop_of_lineAt? {cs : List Char} {offset : Nat} {l : SourceLine}
    (h : lineAt? (linesOf cs) cs.length offset = some l) (ho : offset < cs.length) : offset < l.stop := by
  obtain ⟨line, column, hstands⟩ := exists_stands ho
  obtain ⟨m, hm, hlt, -⟩ := hstands.exists_line (Nat.le_of_lt ho)
  obtain rfl : m = l := Option.some.inj (hm.symm.trans h)
  exact hlt

/-! ## Labels in reports -/

section
variable {id source : String} {d : Diagnostic} {first last : SourceLine}

theorem rowsBelow_labelled {cs : List Char} (hfirst : first ∈ linesOf cs) (hlast : last ∈ linesOf cs)
    (ho : first = last ∨ first.number < last.number)
    (hs : last.start ≤ (marked d.span).stop - 1 ∧ (marked d.span).stop - 1 < last.stop) :
    Labelled (rowsBelow cs d first last) d.label.toList last := by
  rw [rowsBelow]
  refine Labelled.before ?_ _
  rcases ho with rfl | hlt
  · rw [if_pos rfl]
    exact (Labelled.single (by omega) _).behind [_]
  · rw [if_neg (Nat.ne_of_lt hlt)]
    have hmem {l : SourceLine} (hl : l ∈ linesOf cs) (hle : first.number ≤ l.number) (hle' : l.number ≤ last.number) :
        l ∈ (linesOf cs).filter fun l => decide (first.number ≤ l.number ∧ l.number ≤ last.number) :=
      List.mem_filter.2 ⟨hl, decide_eq_true ⟨hle, hle'⟩⟩
    exact (Labelled.multi ((linesOf_ordered cs).filter _) (hmem hfirst (Nat.le_refl _) (Nat.le_of_lt hlt))
      (hmem hlast (Nat.le_of_lt hlt) (Nat.le_refl _)) hlt hs _).behind [_]

theorem below_text
    (hfirst : lineAt? (linesOf source.toList) source.toList.length (marked d.span).start = some first)
    (hlast : lineAt? (linesOf source.toList) source.toList.length ((marked d.span).stop - 1) = some last) :
    Below (text id source d) d.headline id ((rowsBelow source.toList d first last).flatMap (· ++ ['\n'])) :=
  ⟨_, _, _, text_of_lines hfirst hlast⟩

/-- A range that ends in the text has its label under the line that it ends in. -/
theorem labelled_text (hlt : (marked d.span).start < (marked d.span).stop)
    (hstop : (marked d.span).stop ≤ source.toList.length)
    (hlast : lineAt? (linesOf source.toList) source.toList.length ((marked d.span).stop - 1) = some last) :
    ∃ rows, Below (text id source d) d.headline id (rows.flatMap (· ++ ['\n'])) ∧
      Labelled rows d.label.toList last := by
  obtain ⟨first, hfirst⟩ := exists_lineAt? source.toList
    (by omega : (marked d.span).start ≤ source.toList.length)
  obtain ⟨-, hmem, hstart⟩ := lineAt?_eq_some hfirst
  obtain ⟨-, hmem', hstart'⟩ := lineAt?_eq_some hlast
  have ho := lineAt?_last hlast (linesOf_ordered _) hmem (by omega)
  have hs := lt_stop_of_lineAt? hlast (by omega)
  exact ⟨_, below_text hfirst hlast, rowsBelow_labelled hmem hmem' ho ⟨hstart', hs⟩⟩

/-- A range that marks the end of the text is not drawn, and only the margin stands under the header. -/
theorem blank_text (h : d.span = .point source.toList.length) :
    ∃ rest, Below (text id source d) d.headline id rest ∧ ∀ c ∈ rest, c ∈ [' ', '│', '─', '╯', '\n'] := by
  have hmarked : marked d.span = ⟨source.toList.length, source.toList.length + 1⟩ := by
    rw [h]
    exact if_pos rfl
  obtain ⟨l, hl⟩ := exists_lineAt? source.toList (Nat.le_refl source.toList.length)
  have hstop := stop_le_of_mem_linesOf (lineAt?_eq_some hl).2.1
  have hrows : rowsBelow source.toList d l l =
      [spaces ((decimal l.number).length + 2) ++ ['│'], unnumbered (decimal l.number).length,
        footer (decimal l.number).length] := by
    rw [rowsBelow, if_pos rfl, singleLine, if_pos (by rw [hmarked]; exact Nat.lt_succ_of_le hstop)]
    rfl
  refine ⟨_, below_text (by rw [hmarked]; exact hl) (by rw [hmarked]; exact hl), fun c hc => ?_⟩
  rw [hrows] at hc
  simp only [List.flatMap_cons, List.flatMap_nil, unnumbered, footer, spaces, List.mem_append, List.mem_replicate,
    List.mem_cons, List.not_mem_nil, or_false] at hc ⊢
  tauto

end

end Report

namespace Request

open Report

/-- A text that nothing stands in is a program that does not fail. -/
theorem source_ne_nil {r : Request} {failure : Failure} (h : (r.answer global .populated).outcome = .error failure) :
    r.source.toList ≠ [] := by
  intro hs
  have hp : Program.ofSource r.source = .ok [] := Program.ofSource_eq_ok.2 ⟨[], hs ▸ .nil, .nil⟩
  rw [answer, run, hp] at h
  cases h

/-- Unless a text ends too early, the range of its failure is not empty and ends in the text. -/
theorem marked_failure {r : Request} {failure : Failure} (h : (r.answer global .populated).outcome = .error failure)
    (hcomplete : ∀ fault, failure = .notAProgram fault → fault.isIncomplete = false) :
    (marked failure.span).start < (marked failure.span).stop ∧
      (marked failure.span).stop ≤ Text.size r.source.toList := by
  have whole {s : Span} (hlt : s.start < s.stop) (hle : s.stop ≤ Text.size r.source.toList) :
      (marked s).start < (marked s).stop ∧ (marked s).stop ≤ Text.size r.source.toList := by
    rw [marked, if_neg (Nat.ne_of_lt hlt)]
    exact ⟨hlt, hle⟩
  obtain ⟨hfault, hstopped⟩ := failure_blamed h
  cases failure with
  | notAProgram fault =>
    have hblamed := hfault fault rfl
    have hplace := hblamed.place
    rw [if_neg (by simp [hcomplete fault rfl])] at hplace
    exact whole hplace hblamed.within
  | stopped fault =>
    obtain ⟨p, hp, -, n, hn, hspan⟩ := hstopped fault rfl
    have hplaced := (Program.ofSource_placed hp).1 n hn
    rw [Failure.span, hspan]
    exact whole hplaced.start_lt_stop hplaced.stop_le
  | tooDeep =>
    obtain ⟨c, cs, hs⟩ := List.exists_cons_of_ne_nil (source_ne_nil h)
    rw [hs, Text.size_cons]
    have := c.utf8Size_pos
    exact ⟨by decide, by change 1 ≤ _; omega⟩

/-- The label of a missing rest is not in the report. -/
theorem not_labelled {fault : SyntaxFault} {source : String} (hi : fault.isIncomplete = true)
    (hspan : fault.span = .point source.toList.length) (functions : Functions) (id : String) :
    (∃ rest, Below ((Failure.notAProgram fault).report functions id source) fault.headline id rest) ∧
    ∀ rest, Below ((Failure.notAProgram fault).report functions id source) fault.headline id rest →
      ¬ fault.label.toList <:+: rest := by
  obtain ⟨rest, hrest, hblank⟩ := @blank_text id source ((Failure.notAProgram fault).diagnostic functions) hspan
  refine ⟨⟨rest, hrest⟩, fun other hother hlabel => ?_⟩
  obtain rfl := hrest.unique hother
  have hexpected : 'E' ∈ fault.label.toList := by
    cases fault with
    | unexpectedEnd expected =>
      rw [SyntaxFault.label, String.toList_append]
      exact List.mem_append_left _ (by decide)
    | _ => cases hi
  exact absurd (hblank 'E' (hlabel.subset hexpected)) (by decide)

/-- A failure is shown with its label, under the line that its range ends in, unless it is that the input ends
too early. Then nothing is said of what is expected. -/
theorem report_labelled (r : Request) {failure : Failure}
    (h : (r.answer global .populated).outcome = .error failure) (hbytes : ∀ c ∈ r.source.toList, c.utf8Size = 1) :
    ((∀ fault, failure = .notAProgram fault → fault.isIncomplete = false) →
      ∃ l ∈ linesOf r.source.toList,
        l.start ≤ (marked failure.span).stop - 1 ∧ (marked failure.span).stop - 1 < l.stop ∧
        ∀ (functions : Functions) (id : String),
          ∃ rows, Below (failure.report functions id r.source) (failure.headline functions) id
              (rows.flatMap (· ++ ['\n'])) ∧
            Labelled rows (failure.label functions).toList l) ∧
    ∀ fault, failure = .notAProgram fault → fault.isIncomplete = true →
      ∀ (functions : Functions) (id : String),
        (∃ rest, Below (failure.report functions id r.source) (failure.headline functions) id rest) ∧
        ∀ rest, Below (failure.report functions id r.source) (failure.headline functions) id rest →
          ¬ (failure.label functions).toList <:+: rest := by
  have hsize : Text.size r.source.toList = r.source.toList.length := Text.size_eq_length_iff.2 hbytes
  obtain ⟨hfault, hstopped⟩ := failure_blamed h
  refine ⟨fun hcomplete => ?_, ?_⟩
  · obtain ⟨hlt, hstop⟩ := marked_failure h hcomplete
    rw [hsize] at hstop
    obtain ⟨l, hl⟩ := exists_lineAt? r.source.toList
      (by omega : (marked failure.span).stop - 1 ≤ r.source.toList.length)
    obtain ⟨-, hmem, hstart⟩ := lineAt?_eq_some hl
    exact ⟨l, hmem, hstart, lt_stop_of_lineAt? hl (by omega),
      fun functions id => labelled_text (d := failure.diagnostic functions) hlt hstop hl⟩
  · rintro fault rfl hi functions id
    have hplace := (hfault fault rfl).place
    rw [if_pos hi, hsize] at hplace
    exact not_labelled hi hplace functions id

/-- A string that goes on in the second line, and an operand that is missing behind the first. -/
theorem report_labelled_lines :
    let openString : Request := ⟨default, 1, "let s = \"a\nb"⟩
    let unfinished : Request := ⟨default, 1, "1 +\n"⟩
    (∃ failure, (openString.answer global .populated).outcome = .error failure ∧
      ∃ l ∈ linesOf openString.source.toList,
        l.start ≤ (marked failure.span).stop - 1 ∧ (marked failure.span).stop - 1 < l.stop ∧
        ∀ (functions : Functions) (id : String),
          ∃ rows, Below (failure.report functions id openString.source) (failure.headline functions) id
              (rows.flatMap (· ++ ['\n'])) ∧
            Labelled rows (failure.label functions).toList l) ∧
    ∃ failure, (unfinished.answer global .populated).outcome = .error failure ∧
      ∀ (functions : Functions) (id : String),
        (∃ rest, Below (failure.report functions id unfinished.source) (failure.headline functions) id rest) ∧
        ∀ rest, Below (failure.report functions id unfinished.source) (failure.headline functions) id rest →
          ¬ (failure.label functions).toList <:+: rest := by
  intro openString unfinished
  have hopen : (match (openString.answer global .populated).outcome with
      | .error (.notAProgram fault) => !fault.isIncomplete
      | _ => false) = true := by
    simp only [answer, run_eq]
    decide +kernel
  have hunfinished : (match (unfinished.answer global .populated).outcome with
      | .error (.notAProgram fault) => fault.isIncomplete
      | _ => false) = true := by
    simp only [answer, run_eq]
    decide +kernel
  have hascii {source : String} (h : source.toList.all (·.utf8Size == 1) = true) :
      ∀ c ∈ source.toList, c.utf8Size = 1 := by simpa using h
  constructor
  · split at hopen
    · next fault h =>
      obtain ⟨hlabelled, -⟩ := report_labelled openString h (hascii (by decide +kernel))
      refine ⟨_, h, hlabelled ?_⟩
      rintro _ ⟨⟩
      simpa using hopen
    · cases hopen
  · split at hunfinished
    · next fault h =>
      obtain ⟨-, hbare⟩ := report_labelled unfinished h (hascii (by decide +kernel))
      exact ⟨_, h, hbare fault rfl hunfinished⟩
    · cases hunfinished

/-- That the brace of a function is missing is not said. -/
theorem report_labelled_end :
    let r : Request := ⟨default, 1, "fn f() \x7b"⟩
    ∃ failure, (r.answer global .populated).outcome = .error failure ∧
      ∀ (functions : Functions) (id : String),
        failure.label functions = "Expected '\x7d' to close the function body" ∧
        ∀ rest, Below (failure.report functions id r.source) (failure.headline functions) id rest →
          ¬ (failure.label functions).toList <:+: rest := by
  intro r
  have hr : (match (r.answer global .populated).outcome with
      | .error (.notAProgram fault) => decide (fault = .unexpectedEnd Expected.bodyEnd (.point 8))
      | _ => false) = true := by
    simp only [answer, run_eq]
    decide +kernel
  split at hr
  · next fault h =>
    obtain rfl := of_decide_eq_true hr
    have hspan : (SyntaxFault.unexpectedEnd Expected.bodyEnd (.point 8)).span = .point r.source.toList.length := by
      decide +kernel
    exact ⟨_, h, fun functions id => ⟨rfl, (not_labelled rfl hspan functions id).2⟩⟩
  · cases hr

end Request

end RavenLang
