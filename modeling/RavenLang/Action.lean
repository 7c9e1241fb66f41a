import RavenLang.Fault
import RavenLang.Store

/-!
# Actions

Evaluation reads and changes the store and may stop early. What was done to the
store before a fault stays done.
-/

namespace RavenLang

inductive Stop where
  | fault (fault : Fault)
  /-- Calls are nested deeper than allowed. -/
  | tooDeep

abbrev Action (α : Type) := ExceptT Stop (StateM Store) α

namespace Action

variable {α : Type}

def perform (a : Action α) (st : Store) : Except Stop α × Store := StateT.run (ExceptT.run a) st

def fault (f : Fault) : Action α := throw (.fault f)

def ofExcept : Except Fault α → Action α
  | .ok x => return x
  | .error f => fault f

def resolve (id : ScopeId) (name : String) (span : Span) : Action ScopeId := do
  match (← get).owner? id name with
  | some owner => return owner
  | none => fault (.unbound name span)

def lookup (id : ScopeId) (name : String) (span : Span) : Action Value := do
  let owner ← resolve id name span
  match (← get).binding? owner name with
  | some b => return b.value
  | none => fault (.unbound name span)

/-- Binds a name in the scope itself. A name may hide one of an outer scope, but
none of its own scope. -/
def declare (id : ScopeId) (name : String) (b : Binding) (span : Span) : Action Unit := do
  if ((← get).binding? id name).isSome then fault (.alreadyDeclared name span)
  else modify (·.modifyScope id (·.bind name b))

/-- Gives the name seen from `id` another value. Whether it is a constant is up to
the scope it belongs to. -/
def assign (id : ScopeId) (name : String) (value : Value) (span : Span) : Action Unit := do
  let owner ← resolve id name span
  if (← get).isConstant owner name then fault (.constantReassigned name span)
  else modify (·.modifyScope owner (·.update name value))

def enclose (outer : ScopeId) : Action ScopeId := modifyGet (·.addScope (some outer))

/-- The number of the reading that is made. -/
def readClock : Action Nat := modifyGet (·.readClock)

def makeFunction (f : Function) : Action Value := do
  return .function (← modifyGet (·.addFunction f))

/-! ## What actions do -/

section
variable {β : Type} (st : Store)

@[simp] theorem perform_pure (x : α) : (pure x : Action α).perform st = (.ok x, st) := rfl

theorem perform_bind (a : Action α) (f : α → Action β) :
    (a >>= f).perform st =
      match a.perform st with
      | (.ok x, st) => (f x).perform st
      | (.error e, st) => (.error e, st) := by
  simp only [perform, ExceptT.run_bind, StateT.run_bind]
  rcases StateT.run (ExceptT.run a) st with ⟨_ | _, _⟩ <;> rfl

@[simp] theorem perform_fault (f : Fault) : (fault f : Action α).perform st = (.error (.fault f), st) := rfl

@[simp] theorem perform_get : (get : Action Store).perform st = (.ok st, st) := rfl

@[simp] theorem perform_modify (f : Store → Store) :
    (modify f : Action PUnit).perform st = (.ok ⟨⟩, f st) := rfl

@[simp] theorem perform_enclose (outer : ScopeId) :
    (enclose outer).perform st = (.ok st.scopes.size, (st.addScope (some outer)).2) := rfl

@[simp] theorem perform_readClock : readClock.perform st = (.ok st.readings, st.readClock.2) := rfl

@[simp] theorem perform_makeFunction (f : Function) :
    (makeFunction f).perform st = (.ok (.function st.functions.size), (st.addFunction f).2) := rfl

theorem perform_resolve (id : ScopeId) (name : String) (span : Span) :
    (resolve id name span).perform st =
      match st.owner? id name with
      | some owner => (.ok owner, st)
      | none => (.error (.fault (.unbound name span)), st) := by
  simp only [resolve, perform_bind, perform_get]
  cases st.owner? id name <;> rfl

theorem perform_declare (id : ScopeId) (name : String) (b : Binding) (span : Span) :
    (declare id name b span).perform st =
      if (st.binding? id name).isSome then (.error (.fault (.alreadyDeclared name span)), st)
      else (.ok ⟨⟩, st.modifyScope id (·.bind name b)) := by
  simp only [declare, perform_bind, perform_get]
  split <;> rfl

theorem perform_assign (id : ScopeId) (name : String) (value : Value) (span : Span) :
    (assign id name value span).perform st =
      match st.owner? id name with
      | none => (.error (.fault (.unbound name span)), st)
      | some owner =>
        if st.isConstant owner name then (.error (.fault (.constantReassigned name span)), st)
        else (.ok ⟨⟩, st.modifyScope owner (·.update name value)) := by
  simp only [assign, perform_bind, perform_resolve]
  cases st.owner? id name with
  | none => rfl
  | some owner =>
    simp only [perform_get]
    split <;> rfl

theorem perform_lookup (id : ScopeId) (name : String) (span : Span) :
    (lookup id name span).perform st =
      match (st.owner? id name).bind (st.binding? · name) with
      | some b => (.ok b.value, st)
      | none => (.error (.fault (.unbound name span)), st) := by
  simp only [lookup, perform_bind, perform_resolve]
  cases st.owner? id name with
  | none => rfl
  | some owner =>
    simp only [perform_get, Option.bind_some]
    cases st.binding? owner name <;> rfl

end

end Action

end RavenLang
