import RavenLang.Value

/-!
# Run-time faults

Why evaluation stops. A fault carries the span of the node that raised it and
keeps the value it is about.
-/

namespace RavenLang

inductive Fault where
  | alreadyDeclared (name : String) (span : Span)
  | unbound (name : String) (span : Span)
  | constantReassigned (name : String) (span : Span)
  | invalidTarget (span : Span)
  | notCallable (value : Value) (span : Span)
  | notAnObject (value : Value) (span : Span)
  | invalidKey (value : Value) (span : Span)
  | unknownOperator (operator : String) (span : Span)

namespace Fault

def span : Fault → Span
  | alreadyDeclared _ span | unbound _ span | constantReassigned _ span | invalidTarget span
  | notCallable _ span | notAnObject _ span | invalidKey _ span | unknownOperator _ span => span

def message (functions : Functions) : Fault → String
  | alreadyDeclared name _ =>
    "Cannot declare '" ++ name ++ "': it is already declared in this scope"
  | unbound name _ => "Unbound variable: '" ++ name ++ "'"
  | constantReassigned name _ => "Cannot reassign '" ++ name ++ "': it is a constant"
  | invalidTarget _ =>
    "Evaluation Error: Invalid assignment target, only identifiers can be assigned"
  | notCallable value _ =>
    "Evaluation Error: Expected a function, but got: " ++ value.text functions
  | notAnObject value _ => "Evaluation Error: Cannot read a property of " ++ value.typeName
  | invalidKey value _ =>
    "Evaluation Error: Property keys must be strings or numbers, got: " ++ value.text functions
  | unknownOperator operator _ => "Evaluation Error: Unknown operator '" ++ operator ++ "'"

end Fault

end RavenLang
