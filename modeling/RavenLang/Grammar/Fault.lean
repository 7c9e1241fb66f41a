import RavenLang.Token.Lexer

/-!
# Syntax faults

Why a text is not a program.
-/

namespace RavenLang

inductive SyntaxFault where
  | unexpectedToken (found : Token) (expected : String)
  | unexpectedEnd (expected : String) (span : Span)
  | lexical (fault : LexicalFault)
  | missingInitializer (span : Span)
  | invalidParameter (span : Span)
  deriving DecidableEq, Repr

namespace SyntaxFault

def span : SyntaxFault → Span
  | unexpectedToken found _ => found.span
  | unexpectedEnd _ span => span
  | lexical fault => fault.span
  | missingInitializer span => span
  | invalidParameter span => span

def isIncomplete : SyntaxFault → Bool
  | unexpectedEnd .. => true
  | _ => false

def message : SyntaxFault → String
  | unexpectedToken found expected =>
    "Parse Error [at " ++ found.span.text ++ "]: Unexpected token " ++ found.quoted ++
      ", expected " ++ expected
  | unexpectedEnd expected _ => "Parse Error: Unexpected end of input. Expected " ++ expected
  | lexical fault => "Lexer Error during parse: " ++ fault.message
  | missingInitializer span =>
    "Parse Error [at " ++ span.text ++ "]: const declarations must be initialised"
  | invalidParameter span =>
    "Parse Error [at " ++ span.text ++ "]: function parameters must be identifiers"

end SyntaxFault

/-! ## What may be expected -/

namespace Expected

def variableName : String := "an identifier following 'let' or 'const'"
def initializer : String := "'=' following the variable name"
def declarationEnd : String := "';' to end the variable declaration"
def functionName : String := "a function name following 'fn'"
def bodyStart : String := "'\x7b' to open the function body"
def bodyEnd : String := "'\x7d' to close the function body"
def key : String := "an object key"
def keyColon : String := "':' following the object key"
def entryEnd : String := "',' or '\x7d' following the object property"
def objectEnd : String := "'\x7d' to close the object literal"
def propertyName : String := "a property name after '.'"
def memberEnd : String := "']' to close the computed member"
def argumentsStart : String := "'(' to open the argument list"
def argumentsEnd : String := "')' to close the argument list"
def numeral : String := "a numeric literal"
def groupEnd : String := "')' to close the parenthesised expression"
def expression : String := "an expression"

end Expected

end RavenLang
