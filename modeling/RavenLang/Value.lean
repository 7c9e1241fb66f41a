import RavenLang.Number.Decimal
import RavenLang.Syntax

/-!
# Values

What expressions evaluate to. An object's fields are kept sorted by key, one
field for each key. A function value refers to an entry of the table of functions,
so two values are the same function exactly if they refer to the same entry.
-/

namespace RavenLang

abbrev ScopeId := Nat

abbrev FunctionId := Nat

inductive Native where
  | print
  | time
  /-- Supplied by the embedding program under a key. -/
  | embedded (key : String)
  deriving DecidableEq, Repr

inductive Value where
  | null
  | boolean (b : Bool)
  | number (x : Float)
  | string (s : String)
  | object (fields : List (String × Value))
  /-- A native function and the name it is shown under. -/
  | native (native : Native) (name : String)
  | function (id : FunctionId)

structure Function where
  name : String
  parameters : List String
  body : List Stmt
  scope : ScopeId

instance : Inhabited Value := ⟨.null⟩

/-! ## Fields -/

/-- Puts a field in its place; an earlier field of that key is replaced. -/
def insertField (key : String) (value : Value) : List (String × Value) → List (String × Value)
  | [] => [(key, value)]
  | (k, v) :: fields =>
    if key < k then (key, value) :: (k, v) :: fields
    else if key = k then (key, value) :: fields
    else (k, v) :: insertField key value fields

/-- The fields of an object with these entries; the last entry of a key counts. -/
def fieldsOfEntries (entries : List (String × Value)) : List (String × Value) :=
  entries.foldl (fun fields entry => insertField entry.1 entry.2 fields) []

namespace Value

def typeName : Value → String
  | null => "null"
  | boolean _ => "boolean"
  | number _ => "number"
  | string _ => "string"
  | object _ => "object"
  | native .. => "native-function"
  | function _ => "function"

def isCallable : Value → Bool
  | native .. | function _ => true
  | _ => false

/-! ## Equality -/

mutual

/-- Numbers compare as doubles, natives by name, functions by identity. -/
def beq : Value → Value → Bool
  | null, null => true
  | boolean a, boolean b => a == b
  | number a, number b => a == b
  | string a, string b => a == b
  | object a, object b => fieldsBeq a b
  | native _ a, native _ b => a == b
  | function a, function b => a == b
  | _, _ => false

def fieldsBeq : List (String × Value) → List (String × Value) → Bool
  | [], [] => true
  | (k, v) :: a, (l, w) :: b => k == l && beq v w && fieldsBeq a b
  | _, _ => false

end

end Value

/-! ## Text -/

abbrev Functions := Array Function

/-- A number as the language shows it: plain, and a zero without a sign. -/
def numberText (x : Float) : String := if x == 0 then "0" else Number.write .plain x

def Function.text (f : Function) : String := "fn " ++ f.name ++ "(" ++ ", ".intercalate f.parameters ++ ")"

namespace Value

mutual

/-- The text of a value; a string is quoted if it is nested in an object. -/
def render (functions : Functions) (nested : Bool) : Value → String
  | null => "null"
  | boolean b => if b then "true" else "false"
  | number x => numberText x
  | string s => if nested then "\"" ++ s ++ "\"" else s
  | object [] => "\x7b\x7d"
  | object (field :: fields) =>
    "\x7b " ++ ", ".intercalate (fieldTexts functions (field :: fields)) ++ " \x7d"
  | native _ name => "<native " ++ name ++ ">"
  | function id =>
    match functions[id]? with
    | some f => f.text
    | none => "fn ()"

def fieldTexts (functions : Functions) : List (String × Value) → List String
  | [] => []
  | (k, v) :: fields => (k ++ ": " ++ render functions true v) :: fieldTexts functions fields

end

def text (functions : Functions) (v : Value) : String := v.render functions false

def argumentsText (functions : Functions) (arguments : List Value) : String :=
  ", ".intercalate (arguments.map (·.text functions))

end Value

end RavenLang
