import RavenLang.Proofs.Text.Slices
import RavenLang.Proofs.Token.Scanned

/-!
# Tokens in their text

A text is spelled by its tokens and by the white space and the comments between them, and every token
is cut as long as it can be. That is all there is to know: no other tokens spell the text like this.
-/

namespace RavenLang

open Text (size At)

/-! ## Trivia -/

theorem Trivia.append {as bs : List Char} (ha : Trivia as) (hb : Trivia bs) : Trivia (as ++ bs) := by
  induction ha with
  | nil => exact hb
  | blank hc _ ih => exact .blank hc ih
  | line hi _ ih => simpa using Trivia.line hi ih
  | block hi _ ih => simpa using Trivia.block hi ih

/-- What may stand behind the last token. A line comment may end with the text. -/
inductive LastTrivia : List Char → Prop
  | closed {gap} : Trivia gap → LastTrivia gap
  | line {gap inside} : Trivia gap → '\n' ∉ inside → LastTrivia (gap ++ '/' :: '/' :: inside)

theorem Trivia.appendLast {as bs : List Char} (ha : Trivia as) (hb : LastTrivia bs) : LastTrivia (as ++ bs) := by
  cases hb with
  | closed hb => exact .closed (ha.append hb)
  | line hb hi =>
    rw [← List.append_assoc]
    exact .line (ha.append hb) hi

theorem Trivia.of_lineFeed {gap : List Char} (h : Trivia ('\n' :: gap)) : Trivia gap := by
  cases h with
  | blank _ h => exact h

theorem LastTrivia.of_lineFeed {gap : List Char} (h : LastTrivia ('\n' :: gap)) : LastTrivia gap := by
  generalize hg : '\n' :: gap = g at h
  cases h with
  | closed h =>
    subst hg
    exact .closed h.of_lineFeed
  | @line front inside h hi =>
    cases front with
    | nil => cases hg
    | cons c front =>
      cases hg
      exact .line h.of_lineFeed hi

/-! ## Spellings -/

theorem TokenKind.Fits.spelled_head {t : Token} (h : t.kind.Fits t.text.toList) :
    ∃ c cs, t.piece.spelled = c :: cs ∧ c.isWhitespace = false := by
  obtain ⟨kind, text, span⟩ := t
  obtain ⟨us, rfl⟩ : ∃ us, text = .ofList us := ⟨text.toList, by simp⟩
  simp only [String.toList_ofList, Token.piece, Piece.spelled] at h ⊢
  have alphanumeric {c : Char} (hc : c.isAlphanum = true) := isWhitespace_of_isAlphanum hc
  cases h with
  | string => exact ⟨'"', _, if_pos rfl, rfl⟩
  | number hd =>
    obtain ⟨c, cs, rfl⟩ := List.exists_cons_of_ne_nil hd.1
    exact ⟨c, cs, if_neg (by decide), alphanumeric (by simp [Char.isAlphanum, hd.2 c List.mem_cons_self])⟩
  | word hne ha =>
    obtain ⟨c, cs, rfl⟩ := List.exists_cons_of_ne_nil hne
    have hw := TokenKind.isWord_ofWord (c :: cs)
    have hs : TokenKind.ofWord (c :: cs) ≠ .string := fun h => by simp [h, TokenKind.isWord] at hw
    exact ⟨c, cs, if_neg hs, alphanumeric (by simp [Char.isAlphanum, ha c List.mem_cons_self])⟩
  | @mark c kind hm =>
    have hw : c.isWhitespace = false := by
      refine Bool.eq_false_iff.2 fun hw => ?_
      rw [TokenKind.ofMark?_eq_none (.inr hw)] at hm
      cases hm
    exact ⟨c, [], if_neg (TokenKind.not_isWord_of_ofMark? hm).1, hw⟩

/-! ## Texts -/

/-- Behind an offset, a text consists of these tokens at their places and of trivia around them. -/
inductive Spaced : Nat → List Char → List Token → Prop
  | nil {o gap} : LastTrivia gap → Spaced o gap []
  | cons {o gap t rest ts} : Trivia gap → t.kind.Fits t.text.toList →
      t.span = ⟨o + size gap, o + size gap + size t.piece.spelled⟩ →
      (∀ c, rest.head? = some c → t.piece.runsInto c = false) → Spaced t.span.stop rest ts →
      Spaced o (gap ++ (t.piece.spelled ++ rest)) (t :: ts)

namespace Spaced

variable {o : Nat} {cs : List Char} {ts us ws : List Token}

theorem behind {gap : List Char} (h : Spaced (o + size gap) cs ts) (hg : Trivia gap) : Spaced o (gap ++ cs) ts := by
  generalize ho : o + size gap = o' at h
  cases h with
  | nil hl => exact .nil (hg.appendLast hl)
  | cons hg' hf hs hr h =>
    subst ho
    rw [← List.append_assoc]
    exact .cons (hg.append hg') hf (by rw [hs, Text.size_append, ← Nat.add_assoc]) hr h

theorem of_lineFeed (h : Spaced o ('\n' :: cs) ts) : Spaced (o + 1) cs ts := by
  generalize hds : '\n' :: cs = ds at h
  cases h with
  | nil hl =>
    subst hds
    exact .nil hl.of_lineFeed
  | @cons _ gap t rest ts hg hf hs hr h =>
    cases gap with
    | nil =>
      obtain ⟨c, us, hc, hw⟩ := hf.spelled_head
      rw [hc] at hds
      cases hds
      cases hw
    | cons c gap =>
      cases hds
      refine .cons hg.of_lineFeed hf ?_ hr h
      have hfeed : '\n'.utf8Size = 1 := by decide
      rw [hs, Text.size_cons, hfeed, ← Nat.add_assoc]

theorem of_scanned (h : Scanned o cs ts) : Spaced o cs ts := by
  induction h with
  | nil => exact .nil (.closed .nil)
  | @token o kind taken rest ts hcut _ ih =>
    obtain ⟨hf, hs, hr⟩ := hcut.piece
    generalize ht : (⟨kind, (Piece.ofCut kind taken).text, ⟨o, o + size taken⟩⟩ : Token) = t
    have hp : t.piece = Piece.ofCut kind taken := by subst ht; rfl
    have hspan : t.span = ⟨o, o + size taken⟩ := by subst ht; rfl
    have h : Spaced o ([] ++ (t.piece.spelled ++ rest)) (t :: ts) := by
      refine .cons .nil ?_ ?_ ?_ ?_
      · subst ht; exact hf
      · rw [hspan, hp, hs]; rfl
      · rw [hp]; exact hr
      · rw [hspan]; exact ih
    rwa [hp, hs] at h
  | @trivia o taken rest ts hcut _ ih =>
    cases hcut with
    | blank hc => exact ih.behind (.blank hc .nil)
    | block hi => exact ih.behind (by simpa using Trivia.block hi .nil)
    | @line inside _ hi hr =>
      cases rest with
      | nil =>
        generalize hds : ([] : List Char) = ds at ih
        cases ih with
        | nil =>
          rw [← hds, List.append_nil]
          exact .nil (LastTrivia.line .nil hi)
        | cons _ hf =>
          obtain ⟨c, us, hc, -⟩ := hf.spelled_head
          simp [hc] at hds
      | cons c rest =>
        obtain rfl := hr c rfl
        have hgap : Trivia ('/' :: '/' :: (inside ++ ['\n'])) := .line hi .nil
        have hsize : size ('/' :: '/' :: (inside ++ ['\n'])) = size ('/' :: '/' :: inside) + 1 := by
          have hfeed : '\n'.utf8Size = 1 := by decide
          simp only [Text.size_cons, Text.size_append, Text.size_nil, hfeed]
          omega
        have h := ih.of_lineFeed
        rw [Nat.add_assoc, ← hsize] at h
        simpa using h.behind hgap

theorem scan (h : Spaced o cs ts) : Token.scan o cs = .ok (ts ++ [.endAt (o + size cs)]) := by
  induction h with
  | @nil o gap hl =>
    cases hl with
    | closed hg =>
      have hs := Token.scan_gap hg o []
      rw [List.append_nil] at hs
      rw [hs, Token.scan]
      rfl
    | @line gap inside hg hi =>
      have hn := Lexeme.next_line hi (by simp : ∀ c, ([] : List Char).head? = some c → c = '\n')
      rw [List.append_nil] at hn
      rw [Token.scan_gap hg, Token.scan_of_trivia hn, Token.scan, Text.size_append, Nat.add_assoc]
      rfl
  | @cons o gap t rest ts hg hf hs hr _ ih =>
    have ht : (⟨t.piece.kind, t.piece.text, ⟨o + size gap, o + size gap + size t.piece.spelled⟩⟩ : Token) = t := by
      rw [← hs]
      rfl
    rw [Token.scan_gap hg, Token.scan_piece hf hr, ht]
    rw [hs] at ih
    rw [ih, Text.size_append, Text.size_append, ← Nat.add_assoc, ← Nat.add_assoc]
    rfl

theorem scanned_iff : Spaced o cs ts ↔ Scanned o cs ts := by
  refine ⟨fun h => ?_, of_scanned⟩
  obtain ⟨us, he, hs⟩ := Scanned.of_scan h.scan
  exact List.append_inj_left' he rfl ▸ hs

end Spaced

/-! ## Runs of tokens -/

/-- Where tokens that begin behind an offset end. -/
def Token.stopOf (o : Nat) (ts : List Token) : Nat := (ts.getLast?.map (·.span.stop)).getD o

theorem Token.stopOf_cons (o : Nat) (t : Token) (ts : List Token) : stopOf o (t :: ts) = stopOf t.span.stop ts := by
  cases ts with
  | nil => rfl
  | cons u us => simp [stopOf, List.getLast?_cons]

theorem Token.le_stopOf {o : Nat} {ts : List Token} (h : ∀ t ∈ ts, o ≤ t.span.stop) : o ≤ stopOf o ts := by
  cases hl : ts.getLast? with
  | none =>
    rw [stopOf, hl]
    exact Nat.le_refl o
  | some t =>
    rw [stopOf, hl]
    exact h t (List.mem_of_getLast? hl)

namespace Spaced

variable {o : Nat} {cs : List Char} {ts us ws : List Token}

theorem front (h : Spaced o cs (us ++ ts)) :
    ∃ before after, cs = before ++ after ∧ Token.stopOf o us = o + size before ∧ Spaced o before us := by
  induction us generalizing o cs with
  | nil => exact ⟨[], cs, rfl, rfl, .nil (.closed .nil)⟩
  | cons u us ih =>
    cases h with
    | @cons _ gap _ rest _ hg hf hs hr h =>
      obtain ⟨before, after, rfl, hstop, hb⟩ := ih h
      refine ⟨gap ++ (u.piece.spelled ++ before), after, by simp, ?_, .cons hg hf hs (fun c hc => hr c ?_) hb⟩
      · rw [Token.stopOf_cons, hstop, hs, Text.size_append, Text.size_append, Nat.add_assoc, Nat.add_assoc]
      · simp [List.head?_append, hc]

/-- A run of tokens spells what stands from the beginning of the first to the end of the last. -/
theorem run (h : Spaced o cs (ws ++ (us ++ ts))) {t : Token} (ht : us.head? = some t) :
    ∃ part, At o cs ⟨t.span.start, Token.stopOf o us⟩ part ∧ Spaced t.span.start part us := by
  induction ws generalizing o cs with
  | nil =>
    obtain ⟨us, rfl⟩ := List.head?_eq_some_iff.1 ht
    cases h with
    | @cons _ gap _ rest _ hg hf hs hr h =>
      obtain ⟨before, after, rfl, hstop, hb⟩ := h.front
      refine ⟨t.piece.spelled ++ before, ⟨gap, after, by simp, ?_⟩, ?_⟩
      · rw [Token.stopOf_cons, hstop, hs, Text.size_append, ← Nat.add_assoc]
      · refine .cons (.nil : Trivia []) hf ?_ (fun c hc => hr c ?_) hb
        · rw [hs]; rfl
        · simp [List.head?_append, hc]
  | cons w ws ih =>
    cases h with
    | @cons _ gap _ rest _ hg hf hs hr h =>
      obtain ⟨part, hat, hp⟩ := ih h
      obtain ⟨us, rfl⟩ := List.head?_eq_some_iff.1 ht
      refine ⟨part, ?_, hp⟩
      rw [Token.stopOf_cons] at hat ⊢
      rw [← List.append_assoc]
      rw [hs, Nat.add_assoc, ← Text.size_append] at hat
      exact hat.behind

end Spaced

/-! ## What is lossless -/

/-- The texts of tokens of a kind that is spelled in few ways. -/
def TokenKind.spellings : TokenKind → List String
  | letWord => ["let", "cho"]
  | constWord => ["const"]
  | fnWord => ["fn"]
  | operator => ["+", "-", "*", "/", "%", "^"]
  | equals => ["="]
  | openParen => ["("]
  | closeParen => [")"]
  | openBracket => ["["]
  | closeBracket => ["]"]
  | openBrace => ["\x7b"]
  | closeBrace => ["\x7d"]
  | comma => [","]
  | dot => ["."]
  | colon => [":"]
  | semicolon => [";"]
  | number | string | identifier | endOfInput => []

def TokenKind.keywords : List String := letWord.spellings ++ constWord.spellings ++ fnWord.spellings

/-- Names are runs of letters other than keywords, numbers runs of digits, and strings hold no quote. -/
def Token.Proper (t : Token) : Prop :=
  match t.kind with
  | .identifier => t.text.toList ≠ [] ∧ (∀ c ∈ t.text.toList, c.isAlpha = true) ∧ t.text ∉ TokenKind.keywords
  | .number => t.text.toList ≠ [] ∧ ∀ c ∈ t.text.toList, c.isDigit = true
  | .string => '"' ∉ t.text.toList
  | kind => t.text ∈ kind.spellings

theorem TokenKind.ofWord_eq_identifier {cs : List Char} :
    ofWord cs = .identifier ↔ String.ofList cs ∉ keywords := by
  have hmem : String.ofList cs ∈ keywords ↔
      (cs = "let".toList ∨ cs = "cho".toList) ∨ cs = "const".toList ∨ cs = "fn".toList := by
    simp [keywords, spellings, String.ext_iff, or_assoc]
  rw [hmem]
  unfold ofWord
  split_ifs with hlet hconst hfn <;> simp_all

theorem TokenKind.fits_of_mem_spellings {kind : TokenKind} {text : String} (h : text ∈ kind.spellings) :
    kind.Fits text.toList := by
  have word {w : String} (hne : w.toList ≠ []) (ha : w.toList.all Char.isAlpha = true) :
      (ofWord w.toList).Fits w.toList :=
    .word hne (List.all_eq_true.1 ha)
  cases kind <;> simp only [spellings, List.mem_cons, List.not_mem_nil, or_false] at h
  case letWord =>
    rcases h with rfl | rfl
    · exact word (w := "let") (by decide) (by decide)
    · exact word (w := "cho") (by decide) (by decide)
  case constWord => exact h ▸ word (w := "const") (by decide) (by decide)
  case fnWord => exact h ▸ word (w := "fn") (by decide) (by decide)
  case operator => rcases h with rfl | rfl | rfl | rfl | rfl | rfl <;> exact .mark rfl
  all_goals
    subst h
    exact .mark rfl

theorem Token.proper_iff {t : Token} : t.Proper ↔ t.kind.Fits t.text.toList := by
  obtain ⟨kind, text, span⟩ := t
  obtain ⟨cs, rfl⟩ : ∃ cs, text = .ofList cs := ⟨text.toList, by simp⟩
  constructor
  · intro h
    simp only [Proper, String.toList_ofList] at h ⊢
    split at h
    · obtain ⟨hne, ha, hk⟩ := h
      have hw := TokenKind.Fits.word hne ha
      rwa [TokenKind.ofWord_eq_identifier.2 hk] at hw
    · exact .number h
    · exact .string h
    · simpa using TokenKind.fits_of_mem_spellings h
  · intro h
    simp only [Proper, String.toList_ofList] at h ⊢
    cases h with
    | string hq => exact hq
    | number hd => exact hd
    | word hne ha =>
      have hid : TokenKind.ofWord cs = .identifier ↔ _ := TokenKind.ofWord_eq_identifier
      unfold TokenKind.ofWord at hid ⊢
      split_ifs at hid ⊢ with hlet hconst hfn
      · rcases hlet with rfl | rfl <;> decide
      · rw [hconst]; decide
      · rw [hfn]; decide
      · exact ⟨hne, ha, hid.1 rfl⟩
    | mark hm =>
      unfold TokenKind.ofMark? at hm
      split at hm <;> cases hm <;> decide

/-- Tokens that are all there is in a text that begins behind an offset, but for the trivia around them. -/
structure Lossless (o : Nat) (cs : List Char) (ts : List Token) : Prop where
  proper : ∀ t ∈ ts, t.Proper
  nonempty : ∀ t ∈ ts, t.span.start < t.span.stop
  /-- A token stands at its place as it is spelled, a string in quotes. -/
  spelled : ∀ t ∈ ts, At o cs t.span t.piece.spelled
  ordered : ts.Pairwise fun t u => t.span.stop ≤ u.span.start
  /-- No token goes on behind its end: no word in a letter, no number in a digit, no slash in what makes
  it the beginning of a comment. -/
  longest : ∀ t ∈ ts, ∀ c, At o cs ⟨t.span.stop, t.span.stop + c.utf8Size⟩ [c] → t.piece.runsInto c = false
  gaps : ∀ before t after, ts = before ++ t :: after →
    ∃ gap, Trivia gap ∧ At o cs ⟨Token.stopOf o before, t.span.start⟩ gap
  lastGap : ∃ gap, LastTrivia gap ∧ At o cs ⟨Token.stopOf o ts, o + size cs⟩ gap

namespace Lossless

variable {o : Nat} {cs gap rest : List Char} {t : Token} {ts : List Token}

theorem of_gap (h : LastTrivia gap) : Lossless o gap [] := by
  refine ⟨by simp, by simp, by simp, .nil, by simp, by simp, gap, h, ?_⟩
  have hat := Text.at_head gap [] o
  rwa [List.append_nil] at hat

theorem gap_of_nil (h : Lossless o gap []) : LastTrivia gap := by
  obtain ⟨gap', hl, hat⟩ := h.lastGap
  have hall := Text.at_head gap [] o
  rw [List.append_nil] at hall
  exact hat.unique hall ▸ hl

/-- The first token, behind a gap, and what stands behind it. -/
theorem exists_cons (h : Lossless o cs (t :: ts)) :
    ∃ gap rest, cs = gap ++ (t.piece.spelled ++ rest) ∧ Trivia gap ∧
      t.span = ⟨o + size gap, o + size gap + size t.piece.spelled⟩ := by
  obtain ⟨gap, hg, hgap⟩ := h.gaps [] t ts rfl
  obtain ⟨rest, rfl⟩ := hgap.eq_append rfl
  have hstart : t.span.start = o + size gap := (Span.mk.inj (hgap.place_eq rfl)).2
  have hspelled := (h.spelled t List.mem_cons_self).of_behind (Nat.le_of_eq hstart.symm)
  obtain ⟨rest, rfl⟩ := hspelled.eq_append hstart
  exact ⟨gap, rest, rfl, hg, hspelled.place_eq hstart⟩

section
variable (hs : t.span = ⟨o + size gap, o + size gap + size t.piece.spelled⟩)
include hs

theorem at_behind {s : Span} {part : List Char} :
    At t.span.stop rest s part ↔ At o (gap ++ (t.piece.spelled ++ rest)) s part ∧ t.span.stop ≤ s.start := by
  have hstop : t.span.stop = o + size (gap ++ t.piece.spelled) := by rw [hs, Text.size_append, Nat.add_assoc]
  rw [← List.append_assoc, hstop]
  exact ⟨fun h => ⟨h.behind, h.start_le.1⟩, fun h => h.1.of_behind h.2⟩

theorem cons (hg : Trivia gap) (hf : t.kind.Fits t.text.toList)
    (hr : ∀ c, rest.head? = some c → t.piece.runsInto c = false) (h : Lossless t.span.stop rest ts) :
    Lossless o (gap ++ (t.piece.spelled ++ rest)) (t :: ts) := by
  refine ⟨?_, ?_, ?_, ?_, ?_, ?_, ?_⟩
  · exact List.forall_mem_cons.2 ⟨Token.proper_iff.2 hf, h.proper⟩
  · refine List.forall_mem_cons.2 ⟨?_, h.nonempty⟩
    obtain ⟨c, us, hc, -⟩ := hf.spelled_head
    have := c.utf8Size_pos
    rw [hs, hc, Text.size_cons]
    simp only
    omega
  · exact List.forall_mem_cons.2 ⟨⟨gap, rest, rfl, hs⟩, fun u hu => ((at_behind hs).1 (h.spelled u hu)).1⟩
  · exact List.pairwise_cons.2 ⟨fun u hu => (h.spelled u hu).start_le.1, h.ordered⟩
  · refine List.forall_mem_cons.2 ⟨fun c hc => ?_, fun u hu c hc => ?_⟩
    · obtain ⟨after, rfl⟩ := ((at_behind hs).2 ⟨hc, Nat.le_refl _⟩).eq_append rfl
      exact hr c rfl
    · have hle := (h.spelled u hu).start_le
      exact h.longest u hu c ((at_behind hs).2 ⟨hc, Nat.le_trans hle.1 hle.2⟩)
  · intro before u after he
    cases before with
    | nil =>
      cases he
      refine ⟨gap, hg, ?_⟩
      rw [hs]
      exact Text.at_head gap _ o
    | cons w before =>
      cases he
      obtain ⟨gap', hg', hat⟩ := h.gaps before u after rfl
      exact ⟨gap', hg', by rw [Token.stopOf_cons]; exact ((at_behind hs).1 hat).1⟩
  · obtain ⟨gap', hl, hat⟩ := h.lastGap
    refine ⟨gap', hl, ?_⟩
    have hsize : o + size (gap ++ (t.piece.spelled ++ rest)) = t.span.stop + size rest := by
      simp only [hs, Text.size_append, Nat.add_assoc]
    rw [Token.stopOf_cons, hsize]
    exact ((at_behind hs).1 hat).1

theorem tail (h : Lossless o (gap ++ (t.piece.spelled ++ rest)) (t :: ts)) :
    (∀ c, rest.head? = some c → t.piece.runsInto c = false) ∧ Lossless t.span.stop rest ts := by
  have hordered := List.pairwise_cons.1 h.ordered
  have hmem {u : Token} (hu : u ∈ ts) : u ∈ t :: ts := List.mem_cons_of_mem t hu
  have hstop {us : List Token} (hus : ∀ u ∈ us, u ∈ ts) : t.span.stop ≤ Token.stopOf t.span.stop us :=
    Token.le_stopOf fun u hu =>
      Nat.le_trans (hordered.1 u (hus u hu)) (Nat.le_of_lt (h.nonempty u (hmem (hus u hu))))
  refine ⟨fun c hc => ?_, ⟨?_, ?_, ?_, hordered.2, ?_, ?_, ?_⟩⟩
  · obtain ⟨rest, rfl⟩ := List.head?_eq_some_iff.1 hc
    have hat : At t.span.stop (c :: rest) ⟨t.span.stop, t.span.stop + c.utf8Size⟩ [c] := Text.at_head [c] rest _
    exact h.longest t List.mem_cons_self c ((at_behind hs).1 hat).1
  · exact fun u hu => h.proper u (hmem hu)
  · exact fun u hu => h.nonempty u (hmem hu)
  · exact fun u hu => (at_behind hs).2 ⟨h.spelled u (hmem hu), hordered.1 u hu⟩
  · exact fun u hu c hc => h.longest u (hmem hu) c ((at_behind hs).1 hc).1
  · intro before u after he
    obtain ⟨gap', hg', hat⟩ := h.gaps (t :: before) u after (by rw [he]; rfl)
    rw [Token.stopOf_cons] at hat
    exact ⟨gap', hg', (at_behind hs).2 ⟨hat, hstop fun w hw => he ▸ List.mem_append_left _ hw⟩⟩
  · obtain ⟨gap', hl, hat⟩ := h.lastGap
    have hsize : o + size (gap ++ (t.piece.spelled ++ rest)) = t.span.stop + size rest := by
      simp only [hs, Text.size_append, Nat.add_assoc]
    rw [Token.stopOf_cons, hsize] at hat
    exact ⟨gap', hl, (at_behind hs).2 ⟨hat, hstop fun _ hu => hu⟩⟩

end

theorem iff_spaced : Lossless o cs ts ↔ Spaced o cs ts := by
  constructor
  · intro h
    induction ts generalizing o cs with
    | nil => exact .nil h.gap_of_nil
    | cons t ts ih =>
      obtain ⟨gap, rest, rfl, hg, hs⟩ := h.exists_cons
      obtain ⟨hr, hts⟩ := tail hs h
      exact .cons hg (Token.proper_iff.1 (h.proper t List.mem_cons_self)) hs hr (ih hts)
  · intro h
    induction h with
    | nil hl => exact of_gap hl
    | cons hg hf hs hr _ ih => exact cons hs hg hf hr ih

end Lossless

theorem Scanned.lossless {o : Nat} {cs : List Char} {ts : List Token} (h : Scanned o cs ts) : Lossless o cs ts :=
  Lossless.iff_spaced.2 (Spaced.scanned_iff.2 h)

/-- A text is cut into exactly those tokens that it consists of. -/
theorem tokenize_eq_ok_iff (source : String) (us : List Token) :
    tokenize source = .ok us ↔
      ∃ ts, us = ts ++ [.endAt (size source.toList)] ∧ (∀ t ∈ ts, t.kind ≠ .endOfInput) ∧
        Lossless 0 source.toList ts := by
  rw [tokenize, Scanned.scan_eq_ok_iff, Nat.zero_add]
  refine exists_congr fun ts => and_congr_right fun _ => ?_
  rw [Lossless.iff_spaced, Spaced.scanned_iff]
  refine ⟨fun h => ⟨fun t ht => ?_, h⟩, fun h => h.2⟩
  exact (Token.proper_iff.1 (h.lossless.proper t ht)).ne_endOfInput

/-! ## Pieces written apart -/

/-- White space, and comments behind it. -/
inductive Separator : List Char → Prop
  | blank {c gap} : c.isWhitespace = true → Trivia gap → Separator (c :: gap)

theorem Separator.trivia {gap : List Char} (h : Separator gap) : Trivia gap := by
  cases h with
  | blank hc hg => exact .blank hc hg

theorem Separator.head {gap cs : List Char} (h : Separator gap) {c : Char} (hc : (gap ++ cs).head? = some c) :
    c.isWhitespace = true := by
  cases h with
  | blank hb =>
    cases hc
    exact hb

namespace Piece

/-- Pieces as they are spelled, each behind its own gap, and the gap behind the last one. -/
def written (ps : List (List Char × Piece)) (last : List Char) : List Char :=
  ps.flatMap (fun p => p.1 ++ p.2.spelled) ++ last

variable {ps : List (List Char × Piece)} {last : List Char}

theorem written_cons (p : List Char × Piece) (ps : List (List Char × Piece)) (last : List Char) :
    written (p :: ps) last = p.1 ++ (p.2.spelled ++ written ps last) := by
  simp [written]

theorem head_written (hgaps : ∀ p ∈ ps, Separator p.1) (hlast : last = [] ∨ Separator last) {c : Char}
    (hc : (written ps last).head? = some c) : c.isWhitespace = true := by
  cases ps with
  | nil =>
    rcases hlast with rfl | hlast
    · cases hc
    · refine hlast.head (?_ : (last ++ []).head? = some c)
      simpa [written] using hc
  | cons p ps =>
    rw [written_cons] at hc
    exact (hgaps p List.mem_cons_self).head hc

theorem layout_written (hfirst : ∀ p, ps.head? = some p → Trivia p.1) (hgaps : ∀ p ∈ ps.tail, Separator p.1)
    (hlast : last = [] ∨ Separator last) : Layout (ps.map (·.2)) (written ps last) := by
  induction ps with
  | nil =>
    rcases hlast with rfl | hlast
    · exact .nil .nil
    · exact .nil hlast.trivia
  | cons p ps ih =>
    rw [written_cons]
    refine .cons (hfirst p rfl) (fun c hc => p.2.runsInto_of_isWhitespace (head_written hgaps hlast hc)) (ih ?_ ?_)
    · exact fun q hq => (hgaps q (List.mem_of_head? hq)).trivia
    · exact fun q hq => hgaps q (List.mem_of_mem_tail hq)

end Piece

/-- Spelled pieces are told apart by what begins with white space, and only at the ends there may be nothing. -/
theorem tokenize_written (ps : List (List Char × Piece)) (last : List Char) (hps : ∀ p ∈ ps, p.2.token.Proper)
    (hfirst : ∀ p, ps.head? = some p → p.1 = [] ∨ Separator p.1) (hgaps : ∀ p ∈ ps.tail, Separator p.1)
    (hlast : last = [] ∨ Separator last) :
    ∃ ts, tokenize (.ofList (Piece.written ps last)) = .ok (ts ++ [.endAt (size (Piece.written ps last))]) ∧
      ts.map Token.piece = ps.map (·.2) ∧ ∀ t ∈ ts, t.kind ≠ .endOfInput := by
  have hfitting : Fitting (ps.map (·.2)) := by
    intro p hp
    obtain ⟨q, hq, rfl⟩ := List.mem_map.1 hp
    exact Token.proper_iff.1 (hps q hq)
  have hlayout : Layout (ps.map (·.2)) (Piece.written ps last) := by
    refine Piece.layout_written (fun p hp => ?_) hgaps hlast
    rcases hfirst p hp with h | h
    · exact h ▸ .nil
    · exact h.trivia
  obtain ⟨ts, hts, hpieces⟩ := Token.scan_layout hlayout hfitting 0
  refine ⟨ts, by rw [tokenize, String.toList_ofList, hts, Nat.zero_add], hpieces, fun t ht => ?_⟩
  exact (hfitting t.piece (hpieces ▸ List.mem_map_of_mem ht)).ne_endOfInput

/-- With beginnings and ends of comments and strings inside each other. -/
theorem tokenize_written_nested :
    let ps : List (List Char × Piece) := [
      ([], ⟨.operator, "/"⟩),
      ([' ', '/', '*', '"', '*', '/'], ⟨.string, "é*/ //"⟩),
      (['\n', '/', '/', '"', '*', '\n'], ⟨.letWord, "cho"⟩),
      (['\t'], ⟨.identifier, "fnlet"⟩)]
    let last := [' ', '/', '*', '/', '*', '/']
    ∃ ts, tokenize (.ofList (Piece.written ps last)) = .ok (ts ++ [.endAt 37]) ∧
      ts.map Token.piece = ps.map (·.2) := by
  intro ps last
  have hps : ∀ p ∈ ps, p.2.token.Proper := by
    simp only [ps, List.forall_mem_cons]
    refine ⟨?_, ?_, ?_, ?_, List.forall_mem_nil _⟩
    · exact (by decide : "/" ∈ TokenKind.operator.spellings)
    · exact (by decide : '"' ∉ "é*/ //".toList)
    · exact (by decide : "cho" ∈ TokenKind.letWord.spellings)
    · exact ⟨by decide, List.all_eq_true.1 (by decide), by decide⟩
  have hquote : ¬ ['*', '/'] <:+: ['"'] := by decide
  have hslash : ¬ ['*', '/'] <:+: ['/'] := by decide
  have hstar : '\n' ∉ ['"', '*'] := by decide
  have hblock : Separator [' ', '/', '*', '"', '*', '/'] := .blank rfl (.block hquote .nil)
  have hline : Separator ['\n', '/', '/', '"', '*', '\n'] := .blank rfl (.line hstar .nil)
  have hlast : Separator last := .blank rfl (.block hslash .nil)
  obtain ⟨ts, hts, hpieces, -⟩ := tokenize_written ps last hps (fun p hp => by cases hp; exact .inl rfl)
    (List.forall_mem_cons.2 ⟨hblock, List.forall_mem_cons.2 ⟨hline, List.forall_mem_singleton.2 (.blank rfl .nil)⟩⟩)
    (.inr hlast)
  have hsize : size (Piece.written ps last) = 37 := by decide +kernel
  rw [hsize] at hts
  exact ⟨ts, hts, hpieces⟩

end RavenLang
