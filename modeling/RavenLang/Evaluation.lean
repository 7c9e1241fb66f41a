import RavenLang.Action
import RavenLang.Value.Operation

/-!
# Evaluation

Expressions and statements are evaluated by recursion on the tree, over a record
that says how functions are called. Calling a user function evaluates its body
with calls allowed one level less deep, which ties the knot.
-/

namespace RavenLang

/-- How the two kinds of function are called. A native gets the scope of the call. -/
structure Calls where
  function : FunctionId → List Value → Span → Action Value
  native : Native → List Value → ScopeId → Action Value

/-! ## Expressions -/

section
variable (calls : Calls) (scope : ScopeId)

def Value.apply (calleeSpan callSpan : Span) (arguments : List Value) : Value → Action Value
  | .native n _ => calls.native n arguments scope
  | .function id => calls.function id arguments callSpan
  | v => Action.fault (.notCallable v calleeSpan)

mutual

/-- Arguments are evaluated before the callee, an object before its key, and a
target is checked before the value that it gets. -/
def Expr.eval : Expr → Action Value
  | .name span n => Action.lookup scope n span
  | .number _ x => return .number x
  | .string _ s => return .string s
  | .object _ entries => do return .object (fieldsOfEntries (← Entry.evalAll entries))
  | .binary span op left right => do
    let x ← left.eval
    let y ← right.eval
    Action.ofExcept (x.combine op span y)
  | .assign span target value =>
    match target.name? with
    | none => Action.fault (.invalidTarget target.span)
    | some n => do
      let v ← value.eval
      Action.assign scope n v span
      return v
  | .call span callee arguments => do
    let vs ← Expr.evalAll arguments
    let f ← callee.eval
    f.apply calls scope callee.span span vs
  | .member _ computed object property => do
    let target ← object.eval
    let k ← match if computed then none else property.name? with
      | some n => pure n
      | none => do Action.ofExcept ((← property.eval).key property.span)
    Action.ofExcept (target.field object.span k)

def Entry.eval : Entry → Action (String × Value)
  | .shorthand span k => do return (k, ← Action.lookup scope k span)
  | .pair _ k value => do return (k, ← value.eval)

def Entry.evalAll : List Entry → Action (List (String × Value))
  | [] => return []
  | e :: es => do
    let field ← e.eval
    return field :: (← Entry.evalAll es)

def Expr.evalAll : List Expr → Action (List Value)
  | [] => return []
  | e :: es => do
    let v ← e.eval
    return v :: (← Expr.evalAll es)

end

/-! ## Statements -/

def Stmt.eval : Stmt → Action Value
  | .declare span constant name value => do
    let v ← match value with
      | some e => e.eval calls scope
      | none => pure .null
    Action.declare scope name ⟨v, constant⟩ span
    return v
  | .function span name parameters body => do
    let v ← Action.makeFunction ⟨name, parameters, body, scope⟩
    Action.declare scope name ⟨v, true⟩ span
    return v
  | .expr _ e => e.eval calls scope

namespace Program

def evalFrom (last : Value) : Program → Action Value
  | [] => return last
  | s :: ss => do evalFrom (← s.eval calls scope) ss

def eval (p : Program) : Action Value := evalFrom calls scope .null p

end Program

end

/-! ## Calls -/

/-- Binds parameters by position. A missing argument is null, further ones are
dropped. -/
def Action.bindParameters (scope : ScopeId) (span : Span) : List String → List Value → Action Unit
  | [], _ => return
  | p :: ps, arguments => do
    declare scope p ⟨arguments.headD .null, false⟩ span
    bindParameters scope span ps arguments.tail

/-- Runs a function's body in a fresh scope inside the one it was declared in. -/
def Calls.enter (calls : Calls) (id : FunctionId) (arguments : List Value) (span : Span) :
    Action Value := do
  match (← get).functions[id]? with
  | none => return .null
  | some f =>
    let scope ← Action.enclose f.scope
    Action.bindParameters scope span f.parameters arguments
    Program.eval calls scope f.body

/-- The time in milliseconds at each reading of the clock. -/
def Clock := Nat → Float

/-- A clock that shows the same time whenever it is read. -/
def Clock.standing (time : Float) : Clock := fun _ => time

instance : Inhabited Clock := ⟨.standing default⟩

/-- A numeral is a clock that stands. -/
instance (time : Nat) : OfNat Clock time := ⟨.standing (OfNat.ofNat time)⟩

/-- The world outside: the clock, and the natives of the embedding program by their
keys. -/
structure Host where
  now : Clock
  embedded : String → List Value → ScopeId → Action Value

namespace Host

def plain (now : Clock) : Host := ⟨now, fun _ _ _ => return .null⟩

def native (host : Host) : Native → List Value → ScopeId → Action Value
  | .print, arguments, _ => do
    modify fun st => st.print (Value.argumentsText st.functions arguments ++ "\n")
    return .null
  | .time, _, _ => return .number (host.now (← Action.readClock))
  | .embedded key, arguments, scope => host.embedded key arguments scope

def calls (host : Host) : (depth : Nat) → Calls
  | 0 => ⟨fun _ _ _ => throw .tooDeep, host.native⟩
  | depth + 1 => ⟨(host.calls depth).enter, host.native⟩

end Host

end RavenLang
