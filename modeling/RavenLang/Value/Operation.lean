import RavenLang.Fault

/-!
# Operations on values

Arithmetic, keys and fields. None of them looks at the store.
-/

namespace RavenLang

def arithmetic? : (operator : String) → Option (Float → Float → Float)
  | "+" => some (· + ·)
  | "-" => some (· - ·)
  | "*" => some (· * ·)
  | "/" => some (· / ·)
  | "%" => some Number.remainder
  | "^" => some Float.pow
  | _ => none

namespace Value

/-- Operators work on numbers; with any other operand the result is null. -/
def combine (operator : String) (span : Span) : Value → Value → Except Fault Value
  | number x, number y =>
    match arithmetic? operator with
    | some f => .ok (number (f x y))
    | none => .error (.unknownOperator operator span)
  | _, _ => .ok null

def key (span : Span) : Value → Except Fault String
  | string s => .ok s
  | number x => .ok (numberText x)
  | v => .error (.invalidKey v span)

/-- The field of an object; a missing one is null. -/
def field (span : Span) (key : String) : Value → Except Fault Value
  | object fields => .ok ((fields.lookup key).getD null)
  | v => .error (.notAnObject v span)

end Value

end RavenLang
