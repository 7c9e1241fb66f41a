import RavenLang.Token.Lexeme

/-!
# Lexer

Reads lexemes from the left, keeps the tokens and closes the list with the
end-of-input token. The first place at which no lexeme starts is the fault.
-/

namespace RavenLang

structure LexicalFault where
  cause : LexicalCause
  span : Span
  deriving DecidableEq, Repr

namespace LexicalCause

def message : LexicalCause → String
  | unterminatedString => "Unterminated string literal"
  | unterminatedComment => "Unterminated block comment"
  | invalidCharacter c => "Unexpected character '" ++ c.toString ++ "'"
  | invalidToken => "Invalid token"

/-- Bytes from the faulty place that belong to the fault: what is never closed
runs to the end of the text, a character covers itself. -/
def extent (remaining : List Char) : LexicalCause → Nat
  | invalidCharacter c => c.utf8Size
  | _ => Text.size remaining

end LexicalCause

def LexicalFault.message (f : LexicalFault) : String := f.cause.message

namespace Token

def scan (offset : Nat) (cs : List Char) : Except LexicalFault (List Token) :=
  match cs with
  | [] => .ok [endAt offset]
  | c :: cs =>
    match Lexeme.next c cs with
    | .error cause => .error ⟨cause, ⟨offset, offset + cause.extent (c :: cs)⟩⟩
    | .ok lexeme =>
      have := lexeme.rest_length_lt
      let stop := offset + Text.size lexeme.taken
      match lexeme.kind with
      | none => scan stop lexeme.rest
      | some kind => (scan stop lexeme.rest).map (⟨kind, lexeme.text, ⟨offset, stop⟩⟩ :: ·)
termination_by cs.length
decreasing_by all_goals exact this

end Token

/-- The tokens of a source text, closed by exactly one end-of-input token. -/
def tokenize (source : String) : Except LexicalFault (List Token) := Token.scan 0 source.toList

end RavenLang
