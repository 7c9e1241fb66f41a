import Mathlib
import RavenLang.Proofs.Number.Digits
import RavenLang.Token.Lexer

/-!
# Tokens and how they are written

Tokens written one after the other are read back, whatever trivia stands between
them, as long as no token goes on into what follows it.
-/

namespace RavenLang

/-! ## Pieces -/

/-- A token without its place. -/
structure Piece where
  kind : TokenKind
  text : String
  deriving DecidableEq

def Token.piece (t : Token) : Piece := ⟨t.kind, t.text⟩

def Piece.token (p : Piece) : Token := ⟨p.kind, p.text, default⟩

@[simp] theorem Piece.kind_token (p : Piece) : p.token.kind = p.kind := rfl

@[simp] theorem Piece.text_token (p : Piece) : p.token.text = p.text := rfl

@[simp] theorem Piece.span_token (p : Piece) : p.token.span = default := rfl

@[simp] theorem Piece.piece_token (p : Piece) : p.token.piece = p := rfl

/-- The texts that tokens of a kind can have. -/
inductive TokenKind.Fits : TokenKind → List Char → Prop
  | string {cs} : '"' ∉ cs → Fits .string cs
  | number {cs} : Number.IsDigits cs → Fits .number cs
  | word {cs} : cs ≠ [] → (∀ c ∈ cs, c.isAlpha = true) → Fits (.ofWord cs) cs
  | mark {c kind} : ofMark? c = some kind → Fits kind [c]

namespace Piece

def spelled (p : Piece) : List Char :=
  if p.kind = .string then '"' :: (p.text.toList ++ ['"']) else p.text.toList

/-- Whether a character written right behind a piece is read as more of it. -/
def runsInto (p : Piece) (c : Char) : Bool :=
  match p.kind with
  | .number => c.isDigit
  | .operator => p.text = "/" && (c = '/' || c = '*')
  | kind => kind.isWord && c.isAlpha

end Piece

def Fitting (ps : List Piece) : Prop := ∀ p ∈ ps, p.kind.Fits p.text.toList

@[simp] theorem fitting_nil : Fitting [] := by simp [Fitting]

@[simp] theorem fitting_cons {p : Piece} {ps : List Piece} :
    Fitting (p :: ps) ↔ p.kind.Fits p.text.toList ∧ Fitting ps := by
  simp [Fitting]

@[simp] theorem fitting_append {ps qs : List Piece} : Fitting (ps ++ qs) ↔ Fitting ps ∧ Fitting qs := by
  simp only [Fitting, List.mem_append]
  grind

inductive Trivia : List Char → Prop
  | nil : Trivia []
  | blank {c cs} : c.isWhitespace = true → Trivia cs → Trivia (c :: cs)
  | line {inside cs} : '\n' ∉ inside → Trivia cs → Trivia ('/' :: '/' :: (inside ++ '\n' :: cs))
  | block {inside cs} : ¬ ['*', '/'] <:+: inside → Trivia cs →
      Trivia ('/' :: '*' :: (inside ++ '*' :: '/' :: cs))

/-- Texts in which pieces are written: trivia may stand anywhere between them, and
stands where one would run into the next. -/
inductive Layout : List Piece → List Char → Prop
  | nil {gap} : Trivia gap → Layout [] gap
  | cons {gap p ps cs} : Trivia gap → (∀ c, cs.head? = some c → p.runsInto c = false) → Layout ps cs →
      Layout (p :: ps) (gap ++ (p.spelled ++ cs))

theorem Layout.blank {c : Char} {ps : List Piece} {cs : List Char} (hc : c.isWhitespace = true)
    (h : Layout ps cs) :
    Layout ps (c :: cs) := by
  cases h with
  | nil hg => exact .nil (.blank hc hg)
  | cons hg hr h => exact .cons (.blank hc hg) hr h

/-! ## Lexemes -/

theorem run_append {α : Type} {p : α → Bool} {us vs : List α} (hu : ∀ c ∈ us, p c = true)
    (hv : ∀ c, vs.head? = some c → p c = false) :
    (us ++ vs).takeWhile p = us ∧ (us ++ vs).dropWhile p = vs := by
  rw [List.takeWhile_append_of_pos hu, List.dropWhile_append_of_pos hu]
  cases vs with
  | nil => simp
  | cons c vs => simp [hv c rfl]

theorem isWhitespace_of_isAlphanum {c : Char} (h : c.isAlphanum = true) : c.isWhitespace = false := by
  refine Bool.eq_false_iff.2 fun hw => ?_
  simp only [Char.isWhitespace, Bool.or_eq_true, decide_eq_true_eq] at hw
  rcases hw with ((rfl | rfl) | rfl) | rfl <;> exact absurd h (by decide)

theorem isAlpha_of_isDigit {c : Char} (h : c.isDigit = true) : c.isAlpha = false := by
  grind [Char.isAlpha, Char.isUpper, Char.isLower, Char.isDigit]

theorem Piece.runsInto_of_isWhitespace (p : Piece) {c : Char} (h : c.isWhitespace = true) : p.runsInto c = false := by
  have hn : c.isAlpha = false ∧ c.isDigit = false := by
    have := mt (isWhitespace_of_isAlphanum (c := c)) (by simp [h])
    simpa [Char.isAlphanum] using this
  unfold runsInto
  split
  · exact hn.2
  · have hslash : c ≠ '/' := fun hc => absurd h (by rw [hc]; decide)
    have hstar : c ≠ '*' := fun hc => absurd h (by rw [hc]; decide)
    simp [hslash, hstar]
  · simp [hn]

theorem TokenKind.ofMark?_eq_none {c : Char} (h : c.isAlphanum = true ∨ c.isWhitespace = true) :
    ofMark? c = none := by
  unfold ofMark?
  split <;> first | rfl | exact absurd h (by decide)

theorem TokenKind.isWord_ofWord (word : List Char) : (ofWord word).isWord = true := by
  unfold ofWord
  split_ifs <;> rfl

theorem TokenKind.not_isWord_of_ofMark? {c : Char} {kind : TokenKind} (h : ofMark? c = some kind) :
    kind ≠ .string ∧ kind ≠ .number ∧ kind ≠ .endOfInput ∧ kind.isWord = false := by
  unfold ofMark? at h
  split at h <;> cases h <;> decide

theorem TokenKind.Fits.ne_endOfInput {kind : TokenKind} {cs : List Char} (h : kind.Fits cs) :
    kind ≠ .endOfInput := by
  cases h with
  | string | number => decide
  | @word cs _ _ =>
    have hw := isWord_ofWord cs
    intro hk
    simp [hk, isWord] at hw
  | mark hm => exact (not_isWord_of_ofMark? hm).2.2.1

namespace Lexeme

def cut {cs : List Char} (l : Lexeme cs) : Option TokenKind × List Char × List Char :=
    (l.kind, l.taken, l.rest)

variable {c : Char} {cs inside rest : List Char}

theorem next_blank (h : c.isWhitespace = true) (cs : List Char) :
    (next c cs).map cut = .ok (none, c :: cs.takeWhile Char.isWhitespace,
      cs.dropWhile Char.isWhitespace) := by
  unfold next
  split
  · exact absurd h (by decide)
  · exact absurd h (by decide)
  · exact absurd h (by decide)
  · rw [if_pos h]
    rfl

theorem next_word (h : c.isAlpha = true) (cs : List Char) :
    (next c cs).map cut =
      .ok (some (.ofWord (c :: cs.takeWhile Char.isAlpha)), c :: cs.takeWhile Char.isAlpha,
        cs.dropWhile Char.isAlpha) := by
  unfold next
  split
  · exact absurd h (by decide)
  · exact absurd h (by decide)
  · exact absurd h (by decide)
  · rw [isWhitespace_of_isAlphanum (by simp [Char.isAlphanum, h]), if_neg (by simp), if_pos h]
    rfl

theorem next_digits (h : c.isDigit = true) (cs : List Char) :
    (next c cs).map cut = .ok (some .number, c :: cs.takeWhile Char.isDigit, cs.dropWhile Char.isDigit) := by
  unfold next
  split
  · exact absurd h (by decide)
  · exact absurd h (by decide)
  · exact absurd h (by decide)
  · rw [isWhitespace_of_isAlphanum (by simp [Char.isAlphanum, h]), if_neg (by simp),
      isAlpha_of_isDigit h, if_neg (by simp), if_pos h]
    rfl

theorem next_mark {kind : TokenKind} (h : TokenKind.ofMark? c = some kind)
    (hc : c = '/' → ∀ d, cs.head? = some d → d ≠ '/' ∧ d ≠ '*') :
    (next c cs).map cut = .ok (some kind, [c], cs) := by
  have hn : c.isWhitespace = false ∧ c.isAlpha = false ∧ c.isDigit = false := by
    have := mt (TokenKind.ofMark?_eq_none (c := c)) (by simp [h])
    simpa [Char.isAlphanum, and_comm, and_assoc] using this
  unfold next
  split
  · exact absurd rfl (hc rfl _ rfl).1
  · exact absurd rfl (hc rfl _ rfl).2
  · cases h
  · simp only [hn, Bool.false_eq_true, if_false, mark, h]
    rfl

theorem next_line (h : '\n' ∉ inside) (hr : ∀ c, rest.head? = some c → c = '\n') :
    (next '/' ('/' :: (inside ++ rest))).map cut = .ok (none, '/' :: '/' :: inside, rest) := by
  have hu : ∀ c ∈ '/' :: inside, (c != '\n') = true := by
    intro c hc
    have hne : c ≠ '\n' := by
      intro h
      subst h
      exact h (by simpa using hc)
    simpa using hne
  have hv : ∀ c, rest.head? = some c → (c != '\n') = false := fun c hc => by simp [hr c hc]
  have hrun := run_append hu hv
  rw [List.cons_append] at hrun
  simp [next, run, cut, Except.map, hrun]

theorem closeComment?_append_close (h : ¬ ['*', '/'] <:+: inside) (cs : List Char) :
    closeComment? (inside ++ '*' :: '/' :: cs) = some (inside ++ ['*', '/'], cs) := by
  induction inside with
  | nil => rfl
  | cons c inside ih =>
    have hi : ¬ ['*', '/'] <:+: inside := fun hin => h (hin.trans (List.suffix_cons c inside).isInfix)
    rw [List.cons_append, closeComment?]
    · simp [ih hi]
    · rintro vs rfl hvs
      cases inside with
      | nil => cases hvs
      | cons d inside =>
        obtain rfl := (List.cons.inj hvs).1
        exact h ⟨[], inside, rfl⟩

theorem next_block (h : ¬ ['*', '/'] <:+: inside) (cs : List Char) :
    (next '/' ('*' :: (inside ++ '*' :: '/' :: cs))).map cut =
      .ok (none, '/' :: '*' :: (inside ++ ['*', '/']), cs) := by
  have hc := closeComment?_append_close h cs
  simp only [next, comment]
  split
  · next hs =>
    simp only [hc, Option.some.injEq, Prod.mk.injEq] at hs
    simp [Except.map, cut, hs]
  · next hs => simp [hc] at hs

theorem closeString?_append_quote (h : '"' ∉ inside) (cs : List Char) :
    closeString? (inside ++ '"' :: cs) = some (inside ++ ['"'], cs) := by
  induction inside with
  | nil => rfl
  | cons c inside ih =>
    simp only [List.mem_cons, not_or] at h
    rw [List.cons_append, closeString?]
    · simp [ih h.2]
    · exact fun hc => h.1 hc.symm

theorem next_string (h : '"' ∉ inside) (cs : List Char) :
    (next '"' (inside ++ '"' :: cs)).map cut = .ok (some .string, '"' :: (inside ++ ['"']), cs) := by
  have hc := closeString?_append_quote h cs
  simp only [next, string]
  split
  · next hs =>
    simp only [hc, Option.some.injEq, Prod.mk.injEq] at hs
    simp [Except.map, cut, hs]
  · next hs => simp [hc] at hs

end Lexeme

/-! ## Scanning -/

namespace Token

variable {c : Char} {cs taken rest gap : List Char} {kind : TokenKind}

theorem scan_of_trivia (h : (Lexeme.next c cs).map Lexeme.cut = .ok (none, taken, rest)) (offset : Nat) :
    scan offset (c :: cs) = scan (offset + Text.size taken) rest := by
  rw [scan]
  cases hn : Lexeme.next c cs with
  | error cause => simp [hn, Except.map] at h
  | ok l =>
    simp only [hn, Except.map, Except.ok.injEq, Lexeme.cut, Prod.mk.injEq] at h
    obtain ⟨hk, rfl, rfl⟩ := h
    simp only [hk]

theorem scan_of_token (h : (Lexeme.next c cs).map Lexeme.cut = .ok (some kind, taken, rest)) (offset : Nat) :
    scan offset (c :: cs) = (scan (offset + Text.size taken) rest).map
      (⟨kind, .ofList (if kind = .string then taken.tail.dropLast else taken),
        ⟨offset, offset + Text.size taken⟩⟩ :: ·) := by
  rw [scan]
  cases hn : Lexeme.next c cs with
  | error cause => simp [hn, Except.map] at h
  | ok l =>
    simp only [hn, Except.map, Except.ok.injEq, Lexeme.cut, Prod.mk.injEq] at h
    obtain ⟨hk, rfl, rfl⟩ := h
    simp only [hk, Lexeme.text, Option.some.injEq]

theorem scan_blank (h : c.isWhitespace = true) (offset : Nat) (cs : List Char) :
    scan offset (c :: cs) = scan (offset + c.utf8Size) cs := by
  rw [scan_of_trivia (Lexeme.next_blank h cs)]
  cases cs with
  | nil => simp
  | cons d cs =>
    cases hd : d.isWhitespace with
    | false => simp [hd]
    | true =>
      -- both sides stop behind the same run
      rw [scan_of_trivia (Lexeme.next_blank hd cs)]
      simp [hd, Nat.add_assoc]

theorem scan_gap (h : Trivia gap) (offset : Nat) (cs : List Char) :
    scan offset (gap ++ cs) = scan (offset + Text.size gap) cs := by
  induction h generalizing offset with
  | nil => simp
  | blank hc _ ih => rw [List.cons_append, scan_blank hc, ih, Text.size_cons, Nat.add_assoc]
  | @line inside us hi _ ih =>
    rw [List.cons_append, List.cons_append, List.append_assoc, List.cons_append,
      scan_of_trivia (Lexeme.next_line hi (by simp)), scan_blank (by decide), ih]
    congr 1
    simp
    omega
  | @block inside us hi _ ih =>
    rw [List.cons_append, List.cons_append, List.append_assoc, List.cons_append, List.cons_append,
      scan_of_trivia (Lexeme.next_block hi _), ih]
    congr 1
    simp
    omega

theorem scan_piece {p : Piece} (hf : p.kind.Fits p.text.toList)
    (hr : ∀ c, cs.head? = some c → p.runsInto c = false) (offset : Nat) :
    scan offset (p.spelled ++ cs) = (scan (offset + Text.size p.spelled) cs).map
      (⟨p.kind, p.text, ⟨offset, offset + Text.size p.spelled⟩⟩ :: ·) := by
  obtain ⟨kind, text⟩ := p
  obtain ⟨us, rfl⟩ : ∃ us, text = .ofList us := ⟨text.toList, by simp⟩
  simp only [String.toList_ofList, Piece.spelled, Piece.runsInto] at hf hr ⊢
  cases hf with
  | string hq =>
    simp only [if_true, List.cons_append, List.append_assoc, List.nil_append]
    rw [scan_of_token (Lexeme.next_string hq cs)]
    simp
  | @number us hd =>
    obtain ⟨c, us, rfl⟩ := List.exists_cons_of_ne_nil hd.1
    have hrun := run_append (fun d h => hd.2 d (List.mem_cons_of_mem c h)) hr
    have hn := Lexeme.next_digits (hd.2 c List.mem_cons_self) (us ++ cs)
    rw [hrun.1, hrun.2] at hn
    simp [scan_of_token hn]
  | @word us hne ha =>
    obtain ⟨c, us, rfl⟩ := List.exists_cons_of_ne_nil hne
    have hk := TokenKind.isWord_ofWord (c :: us)
    have hs : TokenKind.ofWord (c :: us) ≠ .string := fun h => by simp [h, TokenKind.isWord] at hk
    have hw : ∀ d, cs.head? = some d → d.isAlpha = false := by
      intro d hd
      have hd := hr d hd
      split at hd
      · next h => simp [h, TokenKind.isWord] at hk
      · next h => simp [h, TokenKind.isWord] at hk
      · simpa [hk] using hd
    have hrun := run_append (fun d h => ha d (List.mem_cons_of_mem c h)) hw
    have hn := Lexeme.next_word (ha c List.mem_cons_self) (us ++ cs)
    rw [hrun.1, hrun.2] at hn
    simp [scan_of_token hn, hs]
  | @mark c kind hm =>
    have hslash : c = '/' → ∀ d, cs.head? = some d → d ≠ '/' ∧ d ≠ '*' := by
      rintro rfl d hd
      cases hm
      simpa using hr d hd
    have hn := Lexeme.next_mark hm hslash
    simp [scan_of_token hn, (TokenKind.not_isWord_of_ofMark? hm).1]

/-- Pieces written anyhow are read back. -/
theorem scan_layout {ps : List Piece} (h : Layout ps cs) (hf : Fitting ps) (offset : Nat) :
    ∃ ts, scan offset cs = .ok (ts ++ [endAt (offset + Text.size cs)]) ∧ ts.map piece = ps := by
  induction h generalizing offset with
  | @nil gap hg =>
    have hs := scan_gap hg offset []
    rw [List.append_nil] at hs
    exact ⟨[], by simp [hs, scan], rfl⟩
  | @cons gap p ps cs hg hr _ ih =>
    obtain ⟨ts, hts, hps⟩ := ih (fun q hq => hf q (List.mem_cons_of_mem p hq))
      (offset + Text.size gap + Text.size p.spelled)
    refine ⟨⟨p.kind, p.text, ⟨offset + Text.size gap, offset + Text.size gap + Text.size p.spelled⟩⟩ :: ts,
      ?_,
      by rw [List.map_cons, hps]; rfl⟩
    rw [scan_gap hg, scan_piece (hf p List.mem_cons_self) hr, hts]
    simp [Except.map, Nat.add_assoc]

end Token

end RavenLang
