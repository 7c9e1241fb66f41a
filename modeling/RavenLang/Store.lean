import RavenLang.Value

/-!
# The store

All scopes that were ever made, the table of functions, what was printed, and how
often the clock was read.
A scope binds names, marks some of them as constants and refers to the scope around
it. Nothing is ever removed, so references stay valid for the whole session.
-/

namespace RavenLang

/-- What a name stands for in a scope. -/
structure Binding where
  value : Value
  constant : Bool

/-- The names that are marked as constants stand in a list of their own. -/
structure Scope where
  outer : Option ScopeId
  bindings : List (String × Value)
  constants : List String

structure Store where
  scopes : Array Scope
  functions : Functions
  printed : String
  readings : Nat

instance : Inhabited Binding := ⟨⟨.null, false⟩⟩

/-! ## One scope -/

namespace Scope

/-- Nothing is bound in it. -/
def fresh (outer : Option ScopeId) : Scope := ⟨outer, [], []⟩

def isConstant (s : Scope) (name : String) : Bool := name ∈ s.constants

def find? (s : Scope) (name : String) : Option Binding :=
  (s.bindings.lookup name).map (⟨·, s.isConstant name⟩)

/-- Binds a name, in place of whatever it stood for, and marks it if it is to be a
constant. No mark is ever taken away. -/
def bind (s : Scope) (name : String) (b : Binding) : Scope :=
  { s with
    bindings := (name, b.value) :: s.bindings.filter (·.1 ≠ name)
    constants := if b.constant then s.constants.insert name else s.constants }

def update (s : Scope) (name : String) (value : Value) : Scope :=
  { s with bindings := s.bindings.map fun (n, v) => (n, if n = name then value else v) }

def names (s : Scope) : List String := s.bindings.map (·.1)

@[simp] theorem outer_fresh (outer : Option ScopeId) : (fresh outer).outer = outer := rfl

@[simp] theorem find?_fresh (outer : Option ScopeId) (name : String) : (fresh outer).find? name = none := rfl

@[simp] theorem isConstant_fresh (outer : Option ScopeId) (name : String) : (fresh outer).isConstant name = false := rfl

@[simp] theorem outer_bind (s : Scope) (name : String) (b : Binding) : (s.bind name b).outer = s.outer := rfl

@[simp] theorem outer_update (s : Scope) (name : String) (value : Value) :
    (s.update name value).outer = s.outer := rfl

theorem names_update (s : Scope) (name : String) (value : Value) : (s.update name value).names = s.names := by
  simp [names, update, Function.comp_def]

theorem mem_names_bind {s : Scope} {name m : String} {b : Binding} :
    m ∈ (s.bind name b).names ↔ m = name ∨ m ∈ s.names := by
  by_cases h : m = name <;> simp [names, bind, h]

theorem mem_names {s : Scope} {name : String} : name ∈ s.names ↔ (s.find? name).isSome = true := by
  rw [names, find?, Option.isSome_map, List.lookup_isSome_iff, List.mem_map]
  exact exists_congr fun p => and_congr_right fun _ => by rw [beq_iff_eq, eq_comm]

@[simp] theorem isConstant_update (s : Scope) (name : String) (value : Value) (m : String) :
    (s.update name value).isConstant m = s.isConstant m := rfl

theorem isConstant_bind (s : Scope) (name : String) (b : Binding) (m : String) :
    (s.bind name b).isConstant m = (s.isConstant m || b.constant && decide (m = name)) := by
  cases hc : b.constant <;> simp [isConstant, bind, hc, Bool.or_comm]

theorem isConstant_of_find? {s : Scope} {name : String} {b : Binding} (h : s.find? name = some b) :
    s.isConstant name = b.constant := by
  obtain ⟨v, -, rfl⟩ := Option.map_eq_some_iff.1 h
  rfl

/-- What is marked as a constant is bound. -/
def Marked (s : Scope) : Prop := ∀ n ∈ s.constants, n ∈ s.names

theorem lookup_filter_ne {name m : String} (h : m ≠ name) (bs : List (String × Value)) :
    (bs.filter (·.1 ≠ name)).lookup m = bs.lookup m := by
  induction bs with
  | nil => rfl
  | cons x xs ih =>
    obtain ⟨k, c⟩ := x
    by_cases hk : k = name
    · subst hk
      simp [List.lookup_cons, beq_false_of_ne h, ← ih]
    · simp only [List.filter_cons, hk, ne_eq, not_false_eq_true, decide_true, if_true, List.lookup_cons, ih]

/-- A name that was marked before it is bound stays marked. -/
theorem find?_bind (s : Scope) (name : String) (b : Binding) (m : String) :
    (s.bind name b).find? m =
      if m = name then some ⟨b.value, s.isConstant name || b.constant⟩ else s.find? m := by
  rw [find?, isConstant_bind]
  by_cases h : m = name
  · subst h
    simp [bind]
  · rw [if_neg h, bind, List.lookup_cons, beq_false_of_ne h, decide_eq_false h, Bool.and_false, Bool.or_false,
      lookup_filter_ne h]
    rfl

theorem lookup_map_update (name : String) (value : Value) (m : String) (bs : List (String × Value)) :
    (bs.map fun (n, v) => (n, if n = name then value else v)).lookup m =
      if m = name then (bs.lookup m).map fun _ => value else bs.lookup m := by
  induction bs with
  | nil => simp
  | cons x xs ih =>
    obtain ⟨k, v⟩ := x
    simp only [List.map_cons, List.lookup_cons, ih]
    by_cases h : m = k
    · subst h
      by_cases hn : m = name <;> simp [hn]
    · simp [beq_false_of_ne h]

theorem find?_update (s : Scope) (name : String) (value : Value) (m : String) :
    (s.update name value).find? m =
      if m = name then (s.find? m).map fun b => { b with value } else s.find? m := by
  rw [find?, find?, isConstant_update, update, lookup_map_update]
  split
  · rw [Option.map_map, Option.map_map]
    rfl
  · rfl

end Scope

/-! ## The store -/

namespace Store

def empty : Store := ⟨#[], #[], "", 0⟩

instance : Inhabited Store := ⟨empty⟩

def addScope (st : Store) (outer : Option ScopeId) : ScopeId × Store :=
  (st.scopes.size, { st with scopes := st.scopes.push (.fresh outer) })

def addFunction (st : Store) (f : Function) : FunctionId × Store :=
  (st.functions.size, { st with functions := st.functions.push f })

def print (st : Store) (text : String) : Store := { st with printed := st.printed ++ text }

def readClock (st : Store) : Nat × Store := (st.readings, { st with readings := st.readings + 1 })

def modifyScope (st : Store) (id : ScopeId) (f : Scope → Scope) : Store :=
  { st with scopes := st.scopes.modify id f }

/-- The scopes from one outwards. Each is older than the one inside it. -/
def chain (st : Store) (id : ScopeId) : List ScopeId :=
  match st.scopes[id]? with
  | none => []
  | some s =>
    match s.outer with
    | none => [id]
    | some outer => if outer < id then id :: chain st outer else [id]
termination_by id

theorem chain_of_outer {st : Store} {i o : ScopeId} {sc : Scope} (hs : st.scopes[i]? = some sc)
    (ho : sc.outer = some o) (hlt : o < i) : st.chain i = i :: st.chain o := by
  rw [chain, hs]
  simp [ho, hlt]

theorem chain_of_outermost {st : Store} {i : ScopeId} {sc : Scope} (hs : st.scopes[i]? = some sc)
    (ho : sc.outer = none) : st.chain i = [i] := by
  rw [chain, hs]
  simp [ho]

def binding? (st : Store) (id : ScopeId) (name : String) : Option Binding :=
  st.scopes[id]?.bind (·.find? name)

def owner? (st : Store) (id : ScopeId) (name : String) : Option ScopeId :=
  (st.chain id).find? fun i => (st.binding? i name).isSome

@[simp] theorem scopes_size_modifyScope (st : Store) (id : ScopeId) (f : Scope → Scope) :
    (st.modifyScope id f).scopes.size = st.scopes.size := by simp [modifyScope]

theorem scopes_modifyScope (st : Store) (id : ScopeId) (f : Scope → Scope) (i : ScopeId) :
    (st.modifyScope id f).scopes[i]? = if i = id then st.scopes[i]?.map f else st.scopes[i]? := by
  simp only [modifyScope, Array.getElem?_modify, eq_comm]

theorem binding?_modifyScope (st : Store) (id : ScopeId) (f : Scope → Scope) (i : ScopeId) (name : String) :
    (st.modifyScope id f).binding? i name =
      if i = id then (st.scopes[i]?.map f).bind (·.find? name) else st.binding? i name := by
  simp only [binding?, scopes_modifyScope]
  split <;> rfl

theorem binding?_addScope (st : Store) (outer : Option ScopeId) (i : ScopeId) (name : String) :
    (st.addScope outer).2.binding? i name = st.binding? i name := by
  simp only [binding?, addScope, Array.getElem?_push]
  split
  · next h => subst h; simp
  · rfl

def isConstant (st : Store) (id : ScopeId) (name : String) : Bool :=
  st.scopes[id]?.any (·.isConstant name)

def Marked (st : Store) : Prop := ∀ (i : ScopeId) (s : Scope), st.scopes[i]? = some s → s.Marked

theorem Marked.isConstant_eq_false {st : Store} (h : st.Marked) {id : ScopeId} {name : String}
    (hn : st.binding? id name = none) : st.isConstant id name = false := by
  rw [isConstant, Option.any_eq_false]
  intro s hs
  rw [binding?, hs, Option.bind_some] at hn
  refine decide_eq_false fun hmark => ?_
  have hbound := Scope.mem_names.1 (h id s hs name hmark)
  rw [hn] at hbound
  cases hbound

theorem isConstant_of_binding? {st : Store} {id : ScopeId} {name : String} {b : Binding}
    (h : st.binding? id name = some b) : st.isConstant id name = b.constant := by
  obtain ⟨sc, hs, hb⟩ := Option.bind_eq_some_iff.1 h
  rw [isConstant, hs, Option.any_some, Scope.isConstant_of_find? hb]

def setConstant (st : Store) (id : ScopeId) (name : String) (value : Value) : Store :=
  st.modifyScope id (·.bind name ⟨value, true⟩)

def addPrimitive (st : Store) (id : ScopeId) (name : String) (native : Native) : Store :=
  st.setConstant id name (.native native name)

def visibleNames (st : Store) (id : ScopeId) : List String :=
  (st.chain id).flatMap fun i => (st.scopes[i]?.map Scope.names).getD []

/-- Adds a scope with the constants that every program may use. -/
def addGlobal (st : Store) : ScopeId × Store :=
  let (id, st) := st.addScope none
  let st := st.setConstant id "true" (.boolean true)
  let st := st.setConstant id "false" (.boolean false)
  let st := st.setConstant id "null" .null
  let st := st.addPrimitive id "print" .print
  (id, st.addPrimitive id "time" .time)

end Store

end RavenLang
