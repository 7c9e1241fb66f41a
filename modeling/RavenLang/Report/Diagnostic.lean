import RavenLang.Run

/-!
# Diagnostics

The headline, the place and the label of a failure's report.
-/

namespace RavenLang

structure Diagnostic where
  headline : String
  span : Span
  label : String

namespace LexicalFault

def headline (f : LexicalFault) : String := "Lexer Error: " ++ f.message

def label (f : LexicalFault) : String :=
  match f.cause with
  | .unterminatedString => "This string is never closed"
  | .unterminatedComment => "This comment is never closed"
  | .invalidCharacter c => "'" ++ c.toString ++ "' is not part of the language"
  | .invalidToken => "Unrecognised input"

end LexicalFault

namespace SyntaxFault

def headline : SyntaxFault → String
  | unexpectedToken found _ => "Unexpected token: " ++ found.quoted
  | unexpectedEnd .. => "Unexpected end of input"
  | lexical fault => fault.headline
  | missingInitializer _ => "Missing initializer in const declaration"
  | invalidParameter _ => "Invalid function parameter"

def label : SyntaxFault → String
  | unexpectedToken _ expected => "Expected " ++ expected
  | unexpectedEnd expected _ => "Expected " ++ expected
  | lexical fault => fault.label
  | missingInitializer _ => "Constants must be given a value with '='"
  | invalidParameter _ => "Parameters must be plain identifiers"

end SyntaxFault

namespace Fault

def headline (functions : Functions) : Fault → String
  | alreadyDeclared name _ => "Duplicate declaration of `" ++ name ++ "`"
  | unbound name _ => "Unbound variable `" ++ name ++ "`"
  | constantReassigned name _ => "Cannot reassign constant `" ++ name ++ "`"
  | invalidTarget _ => "Invalid assignment target"
  | notCallable value _ => "Not a function: " ++ value.text functions
  | notAnObject value _ => "Cannot read a property of " ++ value.typeName
  | invalidKey .. => "Invalid property key"
  | unknownOperator operator _ => "Unknown operator '" ++ operator ++ "'"

def label (functions : Functions) : Fault → String
  | alreadyDeclared .. => "This name is already declared in this scope"
  | unbound .. => "This name is not defined in the current scope"
  | constantReassigned .. => "Constants cannot be assigned after declaration"
  | invalidTarget _ => "Only identifiers can be assigned to"
  | notCallable value _ => "This " ++ value.typeName ++ " cannot be called"
  | notAnObject value _ => "This evaluates to " ++ value.text functions
  | invalidKey value _ => "Expected a string or number, found a " ++ value.typeName
  | unknownOperator .. => "This operator is not supported"

end Fault

namespace Failure

def headline (functions : Functions) : Failure → String
  | notAProgram fault => fault.headline
  | stopped fault => fault.headline functions
  | tooDeep => "Calls are nested too deeply"

def label (functions : Functions) : Failure → String
  | notAProgram fault => fault.label
  | stopped fault => fault.label functions
  | tooDeep => "The program was stopped"

def diagnostic (functions : Functions) (f : Failure) : Diagnostic :=
  ⟨f.headline functions, f.span, f.label functions⟩

end Failure

end RavenLang
