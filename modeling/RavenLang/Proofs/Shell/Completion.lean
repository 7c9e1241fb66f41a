import RavenLang.Proofs.Evaluation.Names
import RavenLang.Proofs.Token.LongestMatch
import RavenLang.Shell.Completion

/-!
# Completion

What is offered behind an unfinished word are the endings that make it a keyword or a name that lookup finds,
and a word goes on where more letters are put behind it.
-/

namespace RavenLang

open Text (size)

/-! ## More letters -/

theorem Cut.of_isWord {kind : TokenKind} {taken rest : List Char} (h : Cut (some kind) taken rest)
    (hw : kind.isWord = true) : kind = .ofWord taken ∧ taken ≠ [] ∧ ∀ c ∈ taken, c.isAlpha = true := by
  cases h with
  | string | digits => cases hw
  | word hne ha => exact ⟨rfl, hne, ha⟩
  | mark hm => cases (TokenKind.not_isWord_of_ofMark? hm).2.2.2.symm.trans hw

theorem Piece.text_ofCut_word (word : List Char) : (ofCut (.ofWord word) word).text = .ofList word := by
  have hs : TokenKind.ofWord word ≠ .string := fun hs => by
    have := TokenKind.isWord_ofWord word
    simp [hs, TokenKind.isWord] at this
  simp [ofCut, hs]

/-- A word at the end of a text goes on in letters that are put behind it. -/
theorem Scanned.append_letters {o : Nat} {cs more : List Char} {ts : List Token} {t : Token}
    (h : Scanned o cs (ts ++ [t])) (hw : t.kind.isWord = true) (hstop : t.span.stop = o + size cs)
    (hmore : ∀ c ∈ more, c.isAlpha = true) :
    Scanned o (cs ++ more) (ts ++ [⟨.ofWord (t.text.toList ++ more), .ofList (t.text.toList ++ more),
      ⟨t.span.start, t.span.stop + size more⟩⟩]) := by
  obtain ⟨before, taken, rfl, hb, hcut, htext, hstart⟩ := h.exists_ending hstop
  obtain ⟨hk, hne, ha⟩ := hcut.of_isWord hw
  rw [hk, Piece.text_ofCut_word] at htext
  have hcut' : Cut (some (.ofWord (taken ++ more))) (taken ++ more) [] :=
    .word (by simp [hne]) (List.forall_mem_append.2 ⟨ha, hmore⟩) (by simp)
  have hhead : (taken ++ more).head? = taken.head? := List.head?_append_of_ne_nil _ hne
  have hword := @Scanned.token (o + size before) _ _ _ _ hcut' .nil
  rw [List.append_nil, Piece.text_ofCut_word] at hword
  rw [htext, hstart, hstop, List.append_assoc, String.toList_ofList, Text.size_append, Nat.add_assoc, Nat.add_assoc,
    ← Text.size_append, ← Nat.add_assoc]
  exact (Scanned.iff_of_scan (hb.congr_head hhead).scan).2 ⟨_, rfl, hword⟩

theorem Text.before?_append (us vs : List Char) : before? (us ++ vs) (size us) = some us := by
  induction us with
  | nil => simp [before?]
  | cons c us ih =>
    have hc := c.utf8Size_pos
    rw [List.cons_append, Text.size_cons, before?, if_neg (by omega), Nat.add_sub_cancel_left, ih]
    · rfl
    · omega

namespace Shell

/-! ## Sorted texts -/

theorem mem_insertText {s t : String} {ts : List String} : t ∈ insertText s ts ↔ t = s ∨ t ∈ ts := by
  induction ts with
  | nil => simp [insertText]
  | cons u ts ih =>
    rw [insertText]
    split
    · exact List.mem_cons
    · split
      · next he =>
        subst he
        simp
      · rw [List.mem_cons, List.mem_cons, ih, or_left_comm]

theorem pairwise_insertText {s : String} {ts : List String} (h : ts.Pairwise (· < ·)) :
    (insertText s ts).Pairwise (· < ·) := by
  induction ts with
  | nil => simp [insertText]
  | cons u ts ih =>
    rw [insertText]
    obtain ⟨hu, hts⟩ := List.pairwise_cons.1 h
    split
    · next hlt => exact List.pairwise_cons.2 ⟨List.forall_mem_cons.2 ⟨hlt, fun t ht => hlt.trans (hu t ht)⟩, h⟩
    · next hnot =>
      split
      · exact h
      · next hne =>
        refine List.pairwise_cons.2 ⟨fun t ht => ?_, ih hts⟩
        rcases mem_insertText.1 ht with rfl | ht
        · exact lt_of_le_of_ne (not_lt.1 hnot) (Ne.symm hne)
        · exact hu t ht

theorem mem_sortedTexts {t : String} {ts : List String} : t ∈ sortedTexts ts ↔ t ∈ ts := by
  rw [sortedTexts]
  induction ts with
  | nil => rfl
  | cons u ts ih => rw [List.foldr_cons, mem_insertText, ih, List.mem_cons]

theorem pairwise_sortedTexts (ts : List String) : (sortedTexts ts).Pairwise (· < ·) := by
  rw [sortedTexts]
  induction ts with
  | nil => exact .nil
  | cons u ts ih => exact pairwise_insertText ih

/-! ## Endings -/

theorem isPrefixOf?_append (us vs : List Char) : us.isPrefixOf? (us ++ vs) = some vs := by
  induction us with
  | nil => rfl
  | cons c us ih => rw [List.cons_append, List.isPrefixOf?, if_pos (beq_self_eq_true c), ih]

/-- The rest of a word is what is missing to it. -/
theorem rest?_eq_some_iff {w name c : String} : rest? w name = some c ↔ name = w ++ c ∧ c ≠ "" := by
  constructor
  · intro h
    rw [rest?] at h
    split at h
    · cases h
    · next rest hne hp =>
      cases h
      have happend := List.append_eq_of_isPrefixOf?_eq_some hp
      refine ⟨String.toList_inj.1 (by rw [String.toList_append, String.toList_ofList, happend]), fun he => ?_⟩
      exact hne (by simpa using congrArg String.toList he)
    · cases h
  · rintro ⟨rfl, hne⟩
    rw [rest?, String.toList_append, isPrefixOf?_append]
    cases hc : c.toList with
    | nil => exact absurd (String.toList_inj.1 (hc.trans String.toList_empty.symm)) hne
    | cons d ds =>
      change some (String.ofList (d :: ds)) = some c
      rw [← hc, String.ofList_toList]

theorem mem_endings {st : Store} {scope : ScopeId} {w c : String} :
    c ∈ endings st scope w ↔ c ≠ "" ∧ (w ++ c ∈ st.visibleNames scope ∨ w ++ c ∈ keywords) := by
  rw [endings, mem_sortedTexts, List.mem_filterMap]
  simp only [rest?_eq_some_iff, List.mem_append]
  constructor
  · rintro ⟨name, hname, rfl, hne⟩
    exact ⟨hne, hname⟩
  · rintro ⟨hne, hname⟩
    exact ⟨_, hname, rfl, hne⟩

/-- An ending is of letters, so the word goes on in it. -/
theorem isAlpha_of_mem_endings {st : Store} (hst : st.Named) {scope : ScopeId} {w c : String}
    (h : c ∈ endings st scope w) : ∀ d ∈ c.toList, d.isAlpha = true := by
  have hword : ∀ d ∈ (w ++ c).toList, d.isAlpha = true := by
    rcases (mem_endings.1 h).2 with hname | hkeyword
    · exact (hst.visible hname).2.1
    · have hkeywords : ∀ k ∈ keywords, k.toList.all Char.isAlpha = true := by decide
      exact List.all_eq_true.1 (hkeywords _ hkeyword)
  intro d hd
  exact hword d (by rw [String.toList_append]; exact List.mem_append_right _ hd)

/-! ## The word in front of the cursor -/

/-- The text is cut into these tokens, and the last one is a word that ends with the text. -/
structure LastWord (text : List Char) (ts : List Token) (t : Token) : Prop where
  tokens : tokenize (.ofList text) = .ok (ts ++ [t, .endAt (size text)])
  isWord : t.kind.isWord = true
  stop : t.span.stop = size text

/-- The beginning of a string or of a comment, with what stands in it up to here. -/
inductive Opens : List Char → Prop
  | string {inside} : '"' ∉ inside → Opens ('"' :: inside)
  | block {inside} : ¬ ['*', '/'] <:+: inside → Opens ('/' :: '*' :: inside)
  | line {inside} : '\n' ∉ inside → Opens ('/' :: '/' :: inside)

/-- The text ends in a string or a comment that begins behind its last token. -/
def EndsInside (text : List Char) : Prop := ∃ us vs ts, text = us ++ vs ∧ ScannedBefore vs 0 us ts ∧ Opens vs

section
variable {text : List Char} {ts : List Token} {t : Token}

theorem lastWord_iff :
    LastWord text ts t ↔ Scanned 0 text (ts ++ [t]) ∧ t.kind.isWord = true ∧ t.span.stop = size text := by
  have htokens : tokenize (.ofList text) = .ok (ts ++ [t, .endAt (size text)]) ↔ Scanned 0 text (ts ++ [t]) := by
    rw [tokenize, String.toList_ofList, Scanned.scan_eq_ok_iff, Nat.zero_add, List.append_cons]
    constructor
    · rintro ⟨us, he, hus⟩
      rwa [List.append_inj_left' he rfl]
    · exact fun h => ⟨_, rfl, h⟩
  exact ⟨fun h => ⟨htokens.1 h.tokens, h.isWord, h.stop⟩, fun h => ⟨htokens.2 h.1, h.2.1, h.2.2⟩⟩

/-- The last token is looked for in front of the end of input. -/
theorem lastWord?_of_scanned (h : Scanned 0 text ts) :
    lastWord? text =
      ts.getLast?.bind fun t => if t.kind.isWord ∧ t.span.stop = size text then some t.text else none := by
  have hfilter : (ts ++ [Token.endAt (0 + size text)]).filter (·.kind ≠ .endOfInput) = ts := by
    rw [List.filter_append, List.filter_eq_self.2 fun t ht => decide_eq_true (h.ne_endOfInput ht)]
    simp [Token.endAt]
  rw [lastWord?, h.scan]
  dsimp only
  rw [hfilter]
  cases ts.getLast? <;> rfl

theorem LastWord.lastWord? (h : LastWord text ts t) : lastWord? text = some t.text := by
  obtain ⟨hs, hw, hstop⟩ := lastWord_iff.1 h
  rw [lastWord?_of_scanned hs, List.getLast?_concat]
  exact if_pos ⟨hw, hstop⟩

theorem lastWord?_eq_none (h : ¬ ∃ ts t, LastWord text ts t) : lastWord? text = none := by
  cases hs : Token.scan 0 text with
  | error fault => rw [lastWord?, hs]
  | ok us =>
    obtain ⟨ts, -, hts⟩ := Scanned.of_scan hs
    rw [lastWord?_of_scanned hts, Option.bind_eq_none_iff]
    intro t hlast
    obtain ⟨us, rfl⟩ := List.getLast?_eq_some_iff.1 hlast
    exact if_neg fun hword => h ⟨us, t, lastWord_iff.2 ⟨hts, hword⟩⟩

/-- Behind the last token of a text nothing ends with it. -/
theorem not_lastWord_of_endsInside (h : EndsInside text) : ¬ ∃ ts t, LastWord text ts t := by
  rintro ⟨ts, t, hword⟩
  obtain ⟨us, vs, before, rfl, hbefore, hopens⟩ := h
  obtain ⟨hs, -, hstop⟩ := lastWord_iff.1 hword
  have hscan := hbefore.scan.symm.trans hs.scan
  have uncut {cause : LexicalCause} (hu : Uncut vs cause) : False := by
    rw [hu.scan] at hscan
    cases hscan
  cases hopens with
  | string hi => exact uncut (.string hi)
  | block hi => exact uncut (.comment hi)
  | @line inside hi =>
    -- the comment is no token, so the last one ends in front of it
    have hcut : Cut none ('/' :: '/' :: inside) [] := .line hi (by simp)
    have hline : Scanned (0 + size us) ('/' :: '/' :: inside) [] := by simpa using Scanned.trivia hcut .nil
    rw [hline.scan] at hscan
    obtain rfl := List.append_inj_left' (Except.ok.inj hscan) rfl
    have hle := (hbefore.alone.places t (by simp)).stop_le
    have hpos := ('/' : Char).utf8Size_pos
    rw [hstop, Text.size_append, Text.size_cons] at hle
    omega

end

/-! ## At the cursor -/

theorem complete_eq {st : Store} {scope : ScopeId} {line : String} {before after : List Char}
    (h : line.toList = before ++ after) :
    complete st scope line (size before) =
      ⟨size before, (lastWord? before).elim [] (endings st scope)⟩ := by
  rw [complete, h, Text.before?_append, Option.bind_some]
  cases lastWord? before <;> rfl

theorem tokenize_append_ending {st : Store} (hst : st.Named) {scope : ScopeId} {text : List Char} {ts : List Token}
    {t : Token} (h : LastWord text ts t) {c : String} (hc : c ∈ endings st scope t.text) :
    tokenize (.ofList (text ++ c.toList)) =
      .ok (ts ++ [⟨.ofWord (t.text ++ c).toList, t.text ++ c, ⟨t.span.start, t.span.stop + size c.toList⟩⟩,
        .endAt (size text + size c.toList)]) := by
  obtain ⟨hs, hw, hstop⟩ := lastWord_iff.1 h
  have hmore := hs.append_letters hw (by rw [hstop, Nat.zero_add]) (isAlpha_of_mem_endings hst hc)
  have htext : String.ofList (t.text.toList ++ c.toList) = t.text ++ c := by
    rw [← String.toList_append, String.ofList_toList]
  rw [htext, ← String.toList_append] at hmore
  rw [tokenize, String.toList_ofList, hmore.scan, Nat.zero_add, Text.size_append, List.append_assoc]
  rfl

/-- Behind requests, in whatever scope: what is offered at the cursor makes of the word in front of it a keyword
or a name that lookup finds, nothing of that is left out, and with any of it the word is one token still. Where
there is no such word nothing is offered. -/
theorem complete_exact (earlier : List Request) (scope : ScopeId) {line : String} {before after : List Char}
    (h : line.toList = before ++ after) :
    let st := Request.storeBehind earlier
    let offered := complete st scope line (size before)
    offered.place = size before ∧
      (∀ ts t, LastWord before ts t →
        offered.endings.Pairwise (· < ·) ∧
        (∀ c span, c ∈ offered.endings ↔ c ≠ "" ∧
          ((∃ v, ((Action.lookup scope (t.text ++ c) span).perform st).1 = .ok v) ∨
            t.text ++ c ∈ ["let", "const", "fn", "cho"])) ∧
        ∀ c ∈ offered.endings, tokenize (.ofList (before ++ c.toList)) =
          .ok (ts ++ [⟨.ofWord (t.text ++ c).toList, t.text ++ c, ⟨t.span.start, t.span.stop + size c.toList⟩⟩,
            .endAt (size before + size c.toList)])) ∧
      ((¬ ∃ ts t, LastWord before ts t) → offered.endings = []) ∧
      (EndsInside before → offered.endings = []) := by
  intro st offered
  have hoffered : offered = _ := complete_eq h
  have hnone (hword : ¬ ∃ ts t, LastWord before ts t) : offered.endings = [] := by
    rw [hoffered, lastWord?_eq_none hword, Option.elim_none]
  refine ⟨?_, fun ts t hword => ?_, hnone, fun hinside => hnone (not_lastWord_of_endsInside hinside)⟩
  · rw [hoffered]
  · have hendings : offered.endings = endings st scope t.text := by
      rw [hoffered, hword.lastWord?, Option.elim_some]
    rw [hendings]
    refine ⟨pairwise_sortedTexts _, fun c span => ?_, fun c hc => ?_⟩
    · rw [mem_endings, Action.lookup_ok_iff]
      rfl
    · exact tokenize_append_ending (Request.storeBehind_named earlier) hword hc

/-- A variable, a keyword and a function go on where the word ends. -/
theorem complete_exact_letters :
    let declaring : Request := ⟨default, 1, "let length = 1; fn letter(x) \x7b x \x7d"⟩
    let st := Request.storeBehind [declaring]
    let line := "le + 1"
    line.toList = "le".toList ++ " + 1".toList ∧ complete st global line 2 = ⟨2, ["ngth", "t", "tter"]⟩ ∧
      (∃ v, ((Action.lookup global "length" default).perform st).1 = .ok v) ∧
      tokenize (.ofList "letter".toList) = .ok [⟨.identifier, "letter", ⟨0, 6⟩⟩, .endAt 6] := by
  intro declaring st line
  have hline : line.toList = "le".toList ++ " + 1".toList := by decide
  have hoffered : complete st global line 2 = ⟨2, ["ngth", "t", "tter"]⟩ := by
    simp only [st, Request.storeBehind, List.foldl, Request.answer, run_eq]
    decide +kernel
  have hword : LastWord "le".toList [] ⟨.identifier, "le", ⟨0, 2⟩⟩ := ⟨by decide +kernel, rfl, rfl⟩
  obtain ⟨-, hletters, -⟩ := complete_exact [declaring] global hline
  obtain ⟨-, hmem, htokens⟩ := hletters _ _ hword
  have hsize : size "le".toList = 2 := rfl
  rw [hsize, hoffered] at hmem htokens
  refine ⟨hline, hoffered, ?_, htokens "tter" (by decide)⟩
  exact ((hmem "ngth" default).1 (by decide)).2.resolve_right (by decide)

end Shell

end RavenLang
