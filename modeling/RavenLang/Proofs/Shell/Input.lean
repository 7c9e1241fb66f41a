import Mathlib.Data.List.Infix
import RavenLang.Proofs.Shell.Brackets

/-!
# Gathered lines

What is handed over, and what is dropped at the end, spells the text that was read. Behind a closing bracket
that matches nothing, nothing is handed over any more.
-/

namespace RavenLang.Shell

/-! ## A bracket that matches nothing -/

section
variable {context : Context} {opened us rest : List Char} {c : Char} {o p : Nat}

/-- Only a closing bracket is complained about, whatever follows it. -/
theorem step_eq_none (h : step context opened c rest = none) :
    isClosing c = true ∧ ∀ rest', step context opened c rest' = none := by
  cases context with
  | lineComment | string => cases h
  | code =>
    simp only [step] at h ⊢
    split at h
    · cases h
    · next hq =>
      split at h
      · cases h
      · have hb : bracketsBehind opened c = none := Option.map_eq_none_iff.1 h
        have hc : isClosing c = true := by
          by_contra hc
          simp only [bracketsBehind, hc] at hb
          split at hb <;> cases hb
        refine ⟨hc, fun rest' => ?_⟩
        have hs : c ≠ '/' := by rintro rfl; exact absurd hc (by decide)
        rw [if_neg hq, if_neg fun h => hs h.1, hb]
        rfl

/-- What follows an unmatched bracket does not change the verdict. -/
theorem judgeFrom_eq_unmatched (h : judgeFrom context opened o us = .unmatched c p) :
    isClosing c = true ∧ ∃ before after, us = before ++ c :: after ∧
      ∀ rest, judgeFrom context opened o (before ++ c :: rest) = .unmatched c p := by
  induction us generalizing context opened o with
  | nil =>
    rw [judgeFrom] at h
    split at h <;> cases h
  | cons d us ih =>
    rw [judgeFrom_cons] at h
    cases hs : step context opened d us with
    | none =>
      rw [hs] at h
      cases h
      obtain ⟨hc, hs⟩ := step_eq_none hs
      refine ⟨hc, [], us, rfl, fun rest => ?_⟩
      rw [List.nil_append, judgeFrom_cons, hs]
    | some s =>
      rw [hs] at h
      obtain ⟨hc, before, after, rfl, hb⟩ := ih h
      refine ⟨hc, d :: before, after, rfl, fun rest => ?_⟩
      have hslash : (before ++ c :: rest).head? = (before ++ c :: after).head? := by cases before <;> rfl
      have hstep : step context opened d (before ++ c :: rest) = some s := by
        rw [← hs]
        simp only [step, hslash]
      rw [List.cons_append, judgeFrom_cons, hstep]
      exact hb rest

end

/-! ## Line ends -/

/-- What is dropped is the end of a line, and all of it. -/
theorem dropLineEnd_cases (text : List Char) :
    text = dropLineEnd text ++ ['\r', '\n'] ∨ text = dropLineEnd text ++ ['\n'] ∨
      text = dropLineEnd text ∧ ∀ us, text ≠ us ++ ['\n'] := by
  have hr := text.reverse_reverse
  unfold dropLineEnd
  split
  · next h =>
    rw [h] at hr
    exact .inl (by simpa using hr.symm)
  · next h =>
    rw [h] at hr
    exact .inr (.inl (by simpa using hr.symm))
  · next h =>
    refine .inr (.inr ⟨rfl, fun us hu => ?_⟩)
    exact h us.reverse (by rw [hu, List.reverse_concat])

/-- A character that ends no line stays, with what stands before it. -/
theorem dropLineEnd_append_cons {c : Char} (hn : c ≠ '\n') (hr : c ≠ '\r') (before after : List Char) :
    ∃ rest, dropLineEnd (before ++ c :: after) = before ++ c :: rest := by
  obtain ⟨lineEnd, hd, hc⟩ : ∃ lineEnd, before ++ c :: after = dropLineEnd (before ++ c :: after) ++ lineEnd ∧
      c ∉ lineEnd := by
    obtain h | h | h := dropLineEnd_cases (before ++ c :: after)
    · exact ⟨_, h, by simp [hn, hr]⟩
    · exact ⟨_, h, by simp [hn]⟩
    · exact ⟨[], by rw [List.append_nil]; exact h.1, List.not_mem_nil⟩
  obtain ⟨kept, hk, he⟩ | ⟨cut, -, he⟩ := List.append_eq_append_iff.1 hd
  · cases kept with
    | nil =>
      rw [List.nil_append] at he
      exact absurd (he ▸ List.mem_cons_self) hc
    | cons d kept =>
      obtain ⟨rfl, -⟩ := List.cons.inj he
      exact ⟨kept, hk⟩
  · exact absurd (he ▸ List.mem_append_right cut List.mem_cons_self) hc

/-- A verdict about a bracket that matches nothing outlasts every line. -/
theorem judge_unmatched_line {text : List Char} {c : Char} {o : Nat} (h : judge text = .unmatched c o)
    (line : List Char) : judge (dropLineEnd (text ++ line)) = .unmatched c o := by
  obtain ⟨hc, before, after, rfl, hb⟩ := judgeFrom_eq_unmatched h
  have hn : c ≠ '\n' := by rintro rfl; exact absurd hc (by decide)
  have hr : c ≠ '\r' := by rintro rfl; exact absurd hc (by decide)
  obtain ⟨rest, hd⟩ := dropLineEnd_append_cons hn hr before (after ++ line)
  rw [List.append_assoc, List.cons_append, hd]
  exact hb rest

/-- Every line but the last one is ended. -/
theorem linesOf_ended {cs m : List Char} {ls ms : List (List Char)} (h : linesOf cs = ls ++ m :: ms) :
    ∀ l ∈ ls, ∃ us, l = us ++ ['\n'] := by
  fun_induction linesOf cs generalizing ls with
  | case1 => simp at h
  | case2 cs ih =>
    cases ls with
    | nil => simp
    | cons l ls =>
      obtain ⟨rfl, ht⟩ := List.cons.inj h
      exact List.forall_mem_cons.2 ⟨⟨[], rfl⟩, ih ht⟩
  | case3 =>
    cases ls with
    | nil => simp
    | cons => simp at h
  | case4 c cs _ k ks hk ih =>
    cases ls with
    | nil => simp
    | cons l ls =>
      obtain ⟨rfl, rfl⟩ := List.cons.inj h
      have hk' : linesOf cs = (k :: ls) ++ m :: ms := hk
      obtain ⟨⟨us, rfl⟩, hls⟩ := List.forall_mem_cons.1 (ih hk')
      exact List.forall_mem_cons.2 ⟨⟨c :: us, rfl⟩, hls⟩

theorem flatten_ended {ls : List (List Char)} (h : ∀ l ∈ ls, ∃ us, l = us ++ ['\n']) (hne : ls ≠ []) :
    ∃ us, ls.flatten = us ++ ['\n'] := by
  obtain rfl | ⟨ls, l, rfl⟩ := ls.eq_nil_or_concat
  · exact absurd rfl hne
  · obtain ⟨us, rfl⟩ := h l (by simp)
    exact ⟨ls.flatten ++ us, by simp⟩

/-- Every line ends in a line feed alone. -/
def LineFeeds (text : List Char) : Prop := ¬ ['\r', '\n'] <:+: text

instance (text : List Char) : Decidable (LineFeeds text) := inferInstanceAs (Decidable (¬ _))

theorem LineFeeds.dropLineEnd_cases {text : List Char} (h : LineFeeds text) :
    text = dropLineEnd text ++ ['\n'] ∨ text = dropLineEnd text ∧ ∀ us, text ≠ us ++ ['\n'] :=
  (Shell.dropLineEnd_cases text).resolve_left fun hcr =>
    h ⟨dropLineEnd text, [], by rw [List.append_nil, ← hcr]⟩

theorem LineFeeds.dropLineEnd_ended {text us : List Char} (h : LineFeeds text) (hu : text = us ++ ['\n']) :
    text = dropLineEnd text ++ ['\n'] :=
  h.dropLineEnd_cases.resolve_right fun he => he.2 us hu

/-! ## Groups of lines -/

/-- No matter how many of the lines are read, their brackets are still open. -/
def Withheld (lines : List (List Char)) : Prop :=
  ∀ ls, ls <+: lines → ls ≠ [] → judge (dropLineEnd ls.flatten) = .incomplete

/-- Lines whose brackets are complete at their end and not before. -/
structure IsGroup (lines : List (List Char)) : Prop where
  ne_nil : lines ≠ []
  complete : judge (dropLineEnd lines.flatten) = .complete
  withheld : ∀ ls, ls <+: lines → ls ≠ [] → ls ≠ lines → judge (dropLineEnd ls.flatten) = .incomplete

theorem Withheld.nil : Withheld [] := fun _ h hne => absurd (List.prefix_nil.1 h) hne

theorem Withheld.concat {lines : List (List Char)} {line : List Char} (h : Withheld lines)
    (hl : judge (dropLineEnd (lines ++ [line]).flatten) = .incomplete) : Withheld (lines ++ [line]) := by
  intro ls hp hne
  obtain rfl | hp := List.prefix_concat_iff.1 hp
  · exact hl
  · exact h ls hp hne

theorem Withheld.group {lines : List (List Char)} {line : List Char} (h : Withheld lines)
    (hl : judge (dropLineEnd (lines ++ [line]).flatten) = .complete) : IsGroup (lines ++ [line]) where
  ne_nil := by simp
  complete := hl
  withheld ls hp hne hls := h ls ((List.prefix_concat_iff.1 hp).resolve_left hls) hne

/-- The lines in groups, and those behind the last group. -/
structure InGroups (lines : List (List Char)) (groups : List (List (List Char))) (rest : List (List Char)) :
    Prop where
  lines_eq : lines = groups.flatten ++ rest
  isGroup : ∀ g ∈ groups, IsGroup g
  withheld : Withheld rest

/-- The texts, each followed by a line feed, and what is dropped spell the text, where the last line feed may
be missing. -/
def Spells (texts : List (List Char)) (dropped text : List Char) : Prop :=
  (texts.map (· ++ ['\n'])).flatten ++ dropped = text ∨
    dropped = [] ∧ (texts.map (· ++ ['\n'])).flatten = text ++ ['\n']

theorem Spells.cons {texts : List (List Char)} {dropped text : List Char} (h : Spells texts dropped text)
    (first : List Char) : Spells (first :: texts) dropped ((first ++ ['\n']) ++ text) := by
  obtain rfl | ⟨rfl, h⟩ := h
  · exact .inl (by simp)
  · exact .inr ⟨rfl, by rw [List.map_cons, List.flatten_cons, h, List.append_assoc _ text]⟩

/-- However a text is cut into groups, they spell it. -/
theorem spells_groups {groups : List (List (List Char))} {rest : List (List Char)}
    (hne : ∀ g ∈ groups, g ≠ [])
    (hended : ∀ ls m ms, groups.flatten ++ rest = ls ++ m :: ms → ∀ l ∈ ls, ∃ us, l = us ++ ['\n'])
    (hlf : LineFeeds (groups.flatten ++ rest).flatten) :
    Spells (groups.map fun g => dropLineEnd g.flatten) rest.flatten (groups.flatten ++ rest).flatten := by
  induction groups with
  | nil => exact .inl rfl
  | cons g groups ih =>
    obtain ⟨hg, hne⟩ := List.forall_mem_cons.1 hne
    rw [List.flatten_cons, List.append_assoc] at hended hlf ⊢
    rw [List.flatten_append] at hlf ⊢
    have hlg : LineFeeds g.flatten := fun h => hlf (h.trans (List.prefix_append _ _).isInfix)
    have hlr : LineFeeds (groups.flatten ++ rest).flatten :=
      fun h => hlf (h.trans (List.suffix_append _ _).isInfix)
    cases hlines : groups.flatten ++ rest with
    | nil =>
      -- the last group may stop where the text does
      obtain ⟨hgroups, rfl⟩ := List.append_eq_nil_iff.1 hlines
      obtain rfl : groups = [] :=
        List.eq_nil_iff_forall_not_mem.2 fun g hm => hne g hm (List.flatten_eq_nil_iff.1 hgroups g hm)
      obtain h | h := hlg.dropLineEnd_cases
      · exact .inl (by simpa using h.symm)
      · exact .inr ⟨rfl, by simp [← h.1]⟩
    | cons m ms =>
      obtain ⟨us, hus⟩ := flatten_ended (hended g m ms (by rw [hlines])) hg
      have hrest := ih hne (fun ls k ks h => (List.forall_mem_append.1 (hended (g ++ ls) k ks (by
        rw [h, List.append_assoc]))).2) hlr
      have hspelt := hrest.cons (dropLineEnd g.flatten)
      rwa [← hlg.dropLineEnd_ended hus, hlines] at hspelt

/-! ## Line by line -/

/-- What is handed over for a group. -/
def inputOf (group : List (List Char)) : Input := ⟨"", dropLineEnd group.flatten⟩

/-- What the shell has when it is about to read a line. -/
structure Reader where
  complete : List Input
  gathered : List Char
  complaints : String

namespace Reader

def start : Reader := ⟨[], [], ""⟩

/-- What is judged when a line has been read. -/
def shown (r : Reader) (line : List Char) : List Char := dropLineEnd (r.gathered ++ line)

def read (r : Reader) (line : List Char) : Reader :=
  match judge (r.shown line) with
  | .complete => ⟨r.complete ++ [⟨r.complaints, r.shown line⟩], [], ""⟩
  | .incomplete => { r with gathered := r.gathered ++ line }
  | .unmatched c o =>
    { r with gathered := r.shown line, complaints := r.complaints ++ (Verdict.unmatched c o).complaint }

def readAll (r : Reader) (lines : List (List Char)) : Reader := lines.foldl read r

section
variable {r : Reader} {line : List Char} {lines : List (List Char)} {groups : List (List (List Char))}
  {rest : List (List Char)} {c : Char} {o : Nat}

theorem read_complete (h : judge (r.shown line) = .complete) :
    r.read line = ⟨r.complete ++ [⟨r.complaints, r.shown line⟩], [], ""⟩ := by
  rw [read, h]

theorem read_incomplete (h : judge (r.shown line) = .incomplete) :
    r.read line = { r with gathered := r.gathered ++ line } := by
  rw [read, h]

theorem read_unmatched (h : judge (r.shown line) = .unmatched c o) :
    r.read line =
      { r with gathered := r.shown line, complaints := r.complaints ++ (Verdict.unmatched c o).complaint } := by
  rw [read, h]

theorem readAll_cons : r.readAll (line :: lines) = (r.read line).readAll lines := rfl

theorem readAll_append (r : Reader) (ls ms : List (List Char)) :
    r.readAll (ls ++ ms) = (r.readAll ls).readAll ms :=
  List.foldl_append

theorem readLines_eq (r : Reader) (lines : List (List Char)) :
    (r.readAll lines).complete = r.complete ++ (readLines r.gathered r.complaints lines).complete ∧
      (r.readAll lines).complaints = (readLines r.gathered r.complaints lines).complaints := by
  induction lines generalizing r with
  | nil => exact ⟨(List.append_nil _).symm, rfl⟩
  | cons line lines ih =>
    have hr := ih (r.read line)
    rw [readAll_cons, readLines, ← shown]
    cases hv : judge (r.shown line) with
    | complete =>
      rw [read_complete hv] at hr ⊢
      simpa using hr
    | incomplete =>
      rw [read_incomplete hv] at hr ⊢
      exact hr
    | unmatched =>
      rw [read_unmatched hv] at hr ⊢
      exact hr

theorem readInputs_eq (source : String) :
    readInputs source =
      ⟨(start.readAll (linesOf source.toList)).complete, (start.readAll (linesOf source.toList)).complaints⟩ := by
  obtain ⟨h, hc⟩ := readLines_eq start (linesOf source.toList)
  rw [h, hc]
  rfl

/-- The lines that were read are in groups, and no complaint was made. -/
structure Grouped (r : Reader) (lines : List (List Char)) (groups : List (List (List Char)))
    (rest : List (List Char)) : Prop extends InGroups lines groups rest where
  complete : r.complete = groups.map inputOf
  gathered : r.gathered = rest.flatten
  complaints : r.complaints = ""

theorem start_grouped : start.Grouped [] [] [] := ⟨⟨rfl, by simp, .nil⟩, rfl, rfl, rfl⟩

theorem Grouped.read (h : r.Grouped lines groups rest) (hv : ∀ c o, judge (r.shown line) ≠ .unmatched c o) :
    ∃ groups rest, (r.read line).Grouped (lines ++ [line]) groups rest := by
  have hshown : r.shown line = dropLineEnd (rest ++ [line]).flatten := by
    rw [shown, h.gathered, List.flatten_append, List.flatten_singleton]
  cases hj : judge (r.shown line) with
  | unmatched c o => exact absurd hj (hv c o)
  | complete =>
    rw [read_complete hj, hshown]
    rw [hshown] at hj
    refine ⟨groups ++ [rest ++ [line]], [], ⟨?_, ?_, .nil⟩, ?_, rfl, rfl⟩
    · simp [h.lines_eq]
    · exact List.forall_mem_append.2 ⟨h.isGroup, List.forall_mem_singleton.2 (h.withheld.group hj)⟩
    · rw [h.complete, h.complaints, List.map_append, List.map_singleton, inputOf]
  | incomplete =>
    rw [read_incomplete hj]
    rw [hshown] at hj
    refine ⟨groups, rest ++ [line], ⟨?_, h.isGroup, h.withheld.concat hj⟩, h.complete, ?_, h.complaints⟩
    · rw [h.lines_eq, List.append_assoc]
    · rw [h.gathered, List.flatten_append, List.flatten_singleton]

/-- No bracket is ever found that matches nothing. -/
def Untroubled (r : Reader) : List (List Char) → Prop
  | [] => True
  | line :: lines => (∀ c o, judge (r.shown line) ≠ .unmatched c o) ∧ (r.read line).Untroubled lines

instance decidableMatched : (v : Verdict) → Decidable (∀ c o, v ≠ .unmatched c o)
  | .complete | .incomplete => .isTrue fun _ _ h => Verdict.noConfusion h
  | .unmatched c o => .isFalse fun h => h c o rfl

instance decidableUntroubled (r : Reader) : (lines : List (List Char)) → Decidable (r.Untroubled lines)
  | [] => .isTrue trivial
  | line :: lines =>
    have := (r.read line).decidableUntroubled lines
    inferInstanceAs (Decidable ((∀ c o, judge (r.shown line) ≠ .unmatched c o) ∧ (r.read line).Untroubled lines))

theorem Grouped.readAll {seen : List (List Char)} (h : r.Grouped seen groups rest) (hu : r.Untroubled lines) :
    ∃ groups rest, (r.readAll lines).Grouped (seen ++ lines) groups rest := by
  induction lines generalizing r seen groups rest with
  | nil => exact ⟨groups, rest, by rwa [List.append_nil]⟩
  | cons line lines ih =>
    obtain ⟨groups, rest, hread⟩ := h.read hu.1
    rw [readAll_cons, List.append_cons]
    exact ih hread hu.2

theorem Untroubled.grouped (h : start.Untroubled lines) :
    ∃ groups rest, (start.readAll lines).Grouped lines groups rest :=
  start_grouped.readAll h

/-- A bracket that matches nothing is complained about with every further line. -/
theorem readAll_unmatched (h : judge r.gathered = .unmatched c o) (lines : List (List Char)) :
    (r.readAll lines).complete = r.complete ∧
      (r.readAll lines).complaints =
        r.complaints ++ String.join (List.replicate lines.length (Verdict.unmatched c o).complaint) := by
  induction lines generalizing r with
  | nil => exact ⟨rfl, by simp [readAll]⟩
  | cons line lines ih =>
    have hj : judge (r.shown line) = .unmatched c o := judge_unmatched_line h line
    rw [readAll_cons, read_unmatched hj]
    obtain ⟨hc, hm⟩ := ih (r := { r with
      gathered := r.shown line, complaints := r.complaints ++ (Verdict.unmatched c o).complaint }) hj
    rw [hc, hm]
    exact ⟨rfl, by simp [List.replicate_succ, String.append_assoc]⟩

end

end Reader

/-- As long as every bracket matches, what is handed over and what is dropped spells the text, and each input is
the shortest one that is complete. From a bracket on that matches nothing, the lines only bring its complaint
back. -/
theorem readInputs_lines {source : String} (hlf : LineFeeds source.toList) :
    (Reader.start.Untroubled (linesOf source.toList) →
      ∃ groups rest, InGroups (linesOf source.toList) groups rest ∧
        readInputs source = ⟨groups.map inputOf, ""⟩ ∧
        (Reader.start.readAll (linesOf source.toList)).gathered = rest.flatten ∧
        Spells ((readInputs source).complete.map Input.text) rest.flatten source.toList) ∧
    ∀ before line later c o, linesOf source.toList = before ++ line :: later → Reader.start.Untroubled before →
      judge ((Reader.start.readAll before).shown line) = .unmatched c o →
      ∃ groups rest, InGroups before groups rest ∧
        readInputs source = ⟨groups.map inputOf,
          String.join (List.replicate (later.length + 1) (Verdict.unmatched c o).complaint)⟩ := by
  constructor
  · intro hu
    obtain ⟨groups, rest, hr⟩ := hu.grouped
    have hin : readInputs source = ⟨groups.map inputOf, ""⟩ := by
      rw [Reader.readInputs_eq, hr.complete, hr.complaints]
    refine ⟨groups, rest, hr.toInGroups, hin, hr.gathered, ?_⟩
    have hlines := hr.lines_eq
    have htext : (groups.flatten ++ rest).flatten = source.toList := by
      rw [← hlines, flatten_linesOf]
    have hs := spells_groups (fun g hg => (hr.isGroup g hg).ne_nil)
      (fun ls m ms h => linesOf_ended (hlines.trans h)) (htext ▸ hlf)
    rw [htext] at hs
    simpa [hin, inputOf, Function.comp_def] using hs
  · intro before line later c o hlines hu hv
    obtain ⟨groups, rest, hr⟩ := hu.grouped
    refine ⟨groups, rest, hr.toInGroups, ?_⟩
    have hkept : judge ((Reader.start.readAll before).read line).gathered = .unmatched c o := by
      rw [Reader.read_unmatched hv]
      exact hv
    obtain ⟨hc, hm⟩ := Reader.readAll_unmatched hkept later
    rw [Reader.readInputs_eq, hlines, Reader.readAll_append, Reader.readAll_cons, hc, hm,
      Reader.read_unmatched hv]
    simp [hr.complete, hr.complaints, List.replicate_succ]

/-- A call over two lines with a bracket left open at the end, and a bracket that matches nothing. -/
theorem readInputs_lines_call :
    let called := "f(1\n)\n2\n[\n"
    let unmatched := "1\n[)\n]\n"
    (∃ groups rest, InGroups (linesOf called.toList) groups rest ∧
      readInputs called = ⟨groups.map inputOf, ""⟩ ∧
      (Reader.start.readAll (linesOf called.toList)).gathered = rest.flatten ∧
      Spells ((readInputs called).complete.map Input.text) rest.flatten called.toList) ∧
    ∃ groups rest, InGroups ["1\n".toList] groups rest ∧
      readInputs unmatched = ⟨groups.map inputOf,
        String.join (List.replicate 2 (Verdict.unmatched ')' 1).complaint)⟩ := by
  refine ⟨(readInputs_lines (by decide +kernel)).1 (by decide +kernel), ?_⟩
  exact (readInputs_lines (by decide +kernel)).2 ["1\n".toList] "[)\n".toList ["]\n".toList] ')' 1
    (by decide +kernel) (by decide +kernel) (by decide +kernel)

end RavenLang.Shell
