import RavenLang.Span

/-!
# Tokens

A token has a kind, the text it was read from, and a span. The text of a string
token has no quotes.
-/

namespace RavenLang

inductive TokenKind where
  | number
  | string
  | identifier
  | letWord
  | constWord
  | fnWord
  | operator
  | equals
  | openParen
  | closeParen
  | openBracket
  | closeBracket
  | openBrace
  | closeBrace
  | comma
  | dot
  | colon
  | semicolon
  | endOfInput
  deriving DecidableEq, Repr, Inhabited

namespace TokenKind

def name : TokenKind → String
  | number => "number"
  | string => "string"
  | identifier => "identifier"
  | letWord => "'let'"
  | constWord => "'const'"
  | fnWord => "'fn'"
  | operator => "operator"
  | equals => "'='"
  | openParen => "'('"
  | closeParen => "')'"
  | openBracket => "'['"
  | closeBracket => "']'"
  | openBrace => "'\x7b'"
  | closeBrace => "'\x7d'"
  | comma => "','"
  | dot => "'.'"
  | colon => "':'"
  | semicolon => "';'"
  | endOfInput => "end of input"

def ofWord (word : List Char) : TokenKind :=
  if word = "let".toList ∨ word = "cho".toList then letWord
  else if word = "const".toList then constWord
  else if word = "fn".toList then fnWord
  else identifier

def ofMark? : Char → Option TokenKind
  | '+' | '-' | '*' | '/' | '^' | '%' => some operator
  | '=' => some equals
  | '(' => some openParen
  | ')' => some closeParen
  | '[' => some openBracket
  | ']' => some closeBracket
  | '{' => some openBrace
  | '}' => some closeBrace
  | ',' => some comma
  | '.' => some dot
  | ':' => some colon
  | ';' => some semicolon
  | _ => none

/-- Names and keywords, the kinds that are made of letters. -/
def isWord (kind : TokenKind) : Bool :=
  kind = identifier || kind = letWord || kind = constWord || kind = fnWord

end TokenKind

structure Token where
  kind : TokenKind
  text : String
  span : Span
  deriving DecidableEq, Repr, Inhabited

namespace Token

def endAt (offset : Nat) : Token := ⟨.endOfInput, "", .point offset⟩

def quoted (t : Token) : String :=
  match t.kind with
  | .endOfInput => "end of input"
  | .string => "\"" ++ t.text ++ "\""
  | _ => "'" ++ t.text ++ "'"

def isOperator (t : Token) (operators : List String) : Bool :=
  t.kind = .operator && operators.contains t.text

end Token

end RavenLang
