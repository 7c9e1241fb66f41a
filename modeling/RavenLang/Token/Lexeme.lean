import RavenLang.Text.Size
import RavenLang.Token

/-!
# Lexemes

The longest piece at the head of a text that is one token or one stretch of
trivia: white space or a comment. The piece and what follows it spell the text,
and the piece is never empty.
-/

namespace RavenLang

inductive LexicalCause where
  | unterminatedString
  | unterminatedComment
  | invalidCharacter (c : Char)
  /-- Input that is no character at all. -/
  | invalidToken
  deriving DecidableEq, Repr

/-- The head of a text, cut off as one lexeme. Trivia has no kind. -/
structure Lexeme (cs : List Char) where
  kind : Option TokenKind
  taken : List Char
  rest : List Char
  taken_append_rest : taken ++ rest = cs
  taken_ne_nil : taken ≠ []

namespace Lexeme

variable {cs : List Char}

theorem rest_length_lt (l : Lexeme cs) : l.rest.length < cs.length := by
  have h := congrArg List.length l.taken_append_rest
  have := List.length_pos_iff.2 l.taken_ne_nil
  simp at h; omega

/-- The token's text: the quotes of a string are not part of it. -/
def text (l : Lexeme cs) : String :=
  .ofList (if l.kind = some .string then l.taken.tail.dropLast else l.taken)

/-- Takes the first character and the longest run of `p` after it. -/
def run (kind : Option TokenKind) (p : Char → Bool) (c : Char) (cs : List Char) : Lexeme (c :: cs) where
  kind := kind
  taken := c :: cs.takeWhile p
  rest := cs.dropWhile p
  taken_append_rest := by simp
  taken_ne_nil := by simp

def closeComment? : List Char → Option (List Char × List Char)
  | '*' :: '/' :: cs => some (['*', '/'], cs)
  | c :: cs => (closeComment? cs).map fun (inside, rest) => (c :: inside, rest)
  | [] => none

theorem closeComment?_append {cs inside rest : List Char} (h : closeComment? cs = some (inside, rest)) :
    inside ++ rest = cs := by
  fun_induction closeComment? cs generalizing inside rest with
  | case1 => simp at h; simp [← h.1, ← h.2]
  | case2 c cs _ ih =>
    obtain ⟨⟨i, r⟩, hi, he⟩ := Option.map_eq_some_iff.1 h
    simp only [Prod.mk.injEq] at he
    simp [← he.1, ← he.2, ih hi]
  | case3 => simp at h

def closeString? : List Char → Option (List Char × List Char)
  | '"' :: cs => some (['"'], cs)
  | c :: cs => (closeString? cs).map fun (inside, rest) => (c :: inside, rest)
  | [] => none

theorem closeString?_append {cs inside rest : List Char} (h : closeString? cs = some (inside, rest)) :
    inside ++ rest = cs := by
  fun_induction closeString? cs generalizing inside rest with
  | case1 => simp at h; simp [← h.1, ← h.2]
  | case2 c cs _ ih =>
    obtain ⟨⟨i, r⟩, hi, he⟩ := Option.map_eq_some_iff.1 h
    simp only [Prod.mk.injEq] at he
    simp [← he.1, ← he.2, ih hi]
  | case3 => simp at h

def comment (cs : List Char) : Except LexicalCause (Lexeme ('/' :: '*' :: cs)) :=
  match h : closeComment? cs with
  | some (inside, rest) =>
    .ok ⟨none, '/' :: '*' :: inside, rest, by simp [closeComment?_append h], by simp⟩
  | none => .error .unterminatedComment

/-- A string, given what stands after its opening quote. It has no escapes. -/
def string (cs : List Char) : Except LexicalCause (Lexeme ('"' :: cs)) :=
  match h : closeString? cs with
  | some (inside, rest) =>
    .ok ⟨some .string, '"' :: inside, rest, by simp [closeString?_append h], by simp⟩
  | none => .error .unterminatedString

def mark (c : Char) (cs : List Char) : Except LexicalCause (Lexeme (c :: cs)) :=
  match TokenKind.ofMark? c with
  | some kind => .ok ⟨some kind, [c], cs, rfl, by simp⟩
  | none => .error (.invalidCharacter c)

def next : (c : Char) → (cs : List Char) → Except LexicalCause (Lexeme (c :: cs))
  | '/', '/' :: cs => .ok (run none (· != '\n') '/' ('/' :: cs))
  | '/', '*' :: cs => comment cs
  | '"', cs => string cs
  | c, cs =>
    if c.isWhitespace then .ok (run none Char.isWhitespace c cs)
    else if c.isAlpha then .ok (run (some (.ofWord (c :: cs.takeWhile Char.isAlpha))) Char.isAlpha c cs)
    else if c.isDigit then .ok (run (some .number) Char.isDigit c cs)
    else mark c cs

end Lexeme

end RavenLang
