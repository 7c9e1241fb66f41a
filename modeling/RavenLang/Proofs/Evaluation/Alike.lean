import Mathlib.Data.List.Forall2
import RavenLang.Proofs.Evaluation.Growth
import RavenLang.Value.Operation
import RavenLang.Proofs.Syntax.Spans

/-!
# Alike up to identity

Scopes and functions of two stores may stand for each other. Values, scopes, functions and
faults are alike if they differ in such identities only, and in the places of the text.
-/

namespace RavenLang

/-- Which scopes and functions of two stores stand for each other. -/
structure Pairing where
  scope : ScopeId → ScopeId → Prop
  function : FunctionId → FunctionId → Prop

structure Pairing.Within (w w' : Pairing) : Prop where
  scope : ∀ {i i'}, w.scope i i' → w'.scope i i'
  function : ∀ {g g'}, w.function g g' → w'.function g g'

mutual

inductive Value.Alike (w : Pairing) : Value → Value → Prop
  | null : Value.Alike w .null .null
  | boolean (b : Bool) : Value.Alike w (.boolean b) (.boolean b)
  | number (x : Float) : Value.Alike w (.number x) (.number x)
  | string (s : String) : Value.Alike w (.string s) (.string s)
  | object {fs fs' : List (String × Value)} : FieldsAlike w fs fs' → Value.Alike w (.object fs) (.object fs')
  | native (n : Native) (name : String) : Value.Alike w (.native n name) (.native n name)
  | function {g g' : FunctionId} : w.function g g' → Value.Alike w (.function g) (.function g')

inductive FieldsAlike (w : Pairing) : List (String × Value) → List (String × Value) → Prop
  | nil : FieldsAlike w [] []
  | cons {k : String} {v v' : Value} {fs fs' : List (String × Value)} : Value.Alike w v v' →
      FieldsAlike w fs fs' → FieldsAlike w ((k, v) :: fs) ((k, v') :: fs')

end

structure Binding.Alike (w : Pairing) (b b' : Binding) : Prop where
  value : b.value.Alike w b'.value
  constant : b'.constant = b.constant

structure Scope.Alike (w : Pairing) (i i' : ScopeId) (sc sc' : Scope) : Prop where
  outer : sc.outer = none ∧ sc'.outer = none ∨
    ∃ o o', sc.outer = some o ∧ sc'.outer = some o' ∧ o < i ∧ o' < i' ∧ w.scope o o'
  bindings : List.Forall₂ (fun b b' => b'.1 = b.1 ∧ b.2.Alike w b'.2) sc.bindings sc'.bindings
  constants : ∀ n, sc'.isConstant n = sc.isConstant n

section
variable (place : Span → Span)

structure Function.Alike (w : Pairing) (f f' : Function) : Prop where
  name : f'.name = f.name
  parameters : f'.parameters = f.parameters
  body : f'.body = Stmt.mapSpansAll place f.body
  scope : w.scope f.scope f'.scope

inductive Fault.Alike (w : Pairing) : Fault → Fault → Prop
  | alreadyDeclared (n : String) (s : Span) : Alike w (.alreadyDeclared n s) (.alreadyDeclared n (place s))
  | unbound (n : String) (s : Span) : Alike w (.unbound n s) (.unbound n (place s))
  | constantReassigned (n : String) (s : Span) :
      Alike w (.constantReassigned n s) (.constantReassigned n (place s))
  | invalidTarget (s : Span) : Alike w (.invalidTarget s) (.invalidTarget (place s))
  | notCallable {v v' : Value} (s : Span) : v.Alike w v' → Alike w (.notCallable v s) (.notCallable v' (place s))
  | notAnObject {v v' : Value} (s : Span) : v.Alike w v' → Alike w (.notAnObject v s) (.notAnObject v' (place s))
  | invalidKey {v v' : Value} (s : Span) : v.Alike w v' → Alike w (.invalidKey v s) (.invalidKey v' (place s))
  | unknownOperator (op : String) (s : Span) : Alike w (.unknownOperator op s) (.unknownOperator op (place s))

/-- Both ended well, with results that are alike, or were stopped for the same reason. -/
inductive EndedAlike {α : Type} (w : Pairing) (A : Pairing → α → α → Prop) :
    Except Stop α → Except Stop α → Prop
  | ok {x x' : α} : A w x x' → EndedAlike w A (.ok x) (.ok x')
  | fault {f f' : Fault} : f.Alike place w f' → EndedAlike w A (.error (.fault f)) (.error (.fault f'))
  | tooDeep : EndedAlike w A (.error .tooDeep) (.error .tooDeep)

/-- What stands for each other is alike, and nothing stands for two. -/
structure Pairing.Holds (w : Pairing) (st st' : Store) : Prop where
  scope : ∀ {i i' : ScopeId}, w.scope i i' →
    ∃ sc sc' : Scope, st.scopes[i]? = some sc ∧ st'.scopes[i']? = some sc' ∧ sc.Alike w i i' sc'
  function : ∀ {g g' : FunctionId}, w.function g g' →
    ∃ f f' : Function, st.functions[g]? = some f ∧ st'.functions[g']? = some f' ∧ f.Alike place w f'
  scope_unique : ∀ {i i' j j'}, w.scope i i' → w.scope j j' → (i = j ↔ i' = j')
  function_unique : ∀ {g g' h h'}, w.function g g' → w.function h h' → (g = h ↔ g' = h')

end

/-! ## Values -/

variable {w w' : Pairing}

theorem Pairing.Within.refl (w : Pairing) : w.Within w := ⟨id, id⟩

theorem Pairing.Within.trans {w'' : Pairing} (h : w.Within w') (h' : w'.Within w'') : w.Within w'' :=
  ⟨fun hi => h'.scope (h.scope hi), fun hg => h'.function (h.function hg)⟩

mutual

theorem Value.Alike.mono (h : w.Within w') : ∀ {v v' : Value}, v.Alike w v' → v.Alike w' v'
  | _, _, .null => .null
  | _, _, .boolean b => .boolean b
  | _, _, .number x => .number x
  | _, _, .string s => .string s
  | _, _, .object hfs => .object (hfs.mono h)
  | _, _, .native n name => .native n name
  | _, _, .function hg => .function (h.function hg)

theorem FieldsAlike.mono (h : w.Within w') :
    ∀ {fs fs' : List (String × Value)}, FieldsAlike w fs fs' → FieldsAlike w' fs fs'
  | _, _, .nil => .nil
  | _, _, .cons hv hfs => .cons (hv.mono h) (hfs.mono h)

end

theorem Value.Alike.bound {v v' : Value} (hv : v.Alike w v') (constant : Bool) :
    Binding.Alike w ⟨v, constant⟩ ⟨v', constant⟩ :=
  ⟨hv, rfl⟩

theorem Scope.Alike.mono (h : w.Within w') {i i' : ScopeId} {sc sc' : Scope} (hs : sc.Alike w i i' sc') :
    sc.Alike w' i i' sc' := by
  refine ⟨?_, hs.bindings.imp fun _ _ hb => ⟨hb.1, hb.2.mono h⟩, hs.constants⟩
  rcases hs.outer with hn | ⟨o, o', ho, ho', hlt, hlt', hp⟩
  · exact .inl hn
  · exact .inr ⟨o, o', ho, ho', hlt, hlt', h.scope hp⟩

theorem Function.Alike.mono {place : Span → Span} (h : w.Within w') {f f' : Function}
    (hf : f.Alike place w f') : f.Alike place w' f' :=
  ⟨hf.name, hf.parameters, hf.body, h.scope hf.scope⟩

namespace FieldsAlike

variable {fs fs' : List (String × Value)} {v v' : Value}

theorem insert (h : FieldsAlike w fs fs') (k : String) (hv : v.Alike w v') :
    FieldsAlike w (insertField k v fs) (insertField k v' fs') := by
  induction fs generalizing fs' with
  | nil =>
    cases h
    exact .cons hv .nil
  | cons f fs ih =>
    cases h with
    | @cons l u u' _ fs' hu hfs =>
      rw [insertField, insertField]
      split_ifs
      · exact .cons hv (.cons hu hfs)
      · exact .cons hv hfs
      · exact .cons hu (ih hfs)

theorem ofEntries {es es' : List (String × Value)} (h : FieldsAlike w es es') :
    FieldsAlike w (fieldsOfEntries es) (fieldsOfEntries es') := by
  suffices hacc : ∀ {fs fs'}, FieldsAlike w fs fs' →
      FieldsAlike w (es.foldl (fun fs e => insertField e.1 e.2 fs) fs)
        (es'.foldl (fun fs e => insertField e.1 e.2 fs) fs') from hacc .nil
  induction es generalizing es' with
  | nil =>
    cases h
    exact id
  | cons e es ih =>
    intro fs fs' hfs
    cases h with
    | cons hv hes => exact ih hes (hfs.insert _ hv)

theorem lookup (h : FieldsAlike w fs fs') (k : String) :
    ((fs.lookup k).getD .null).Alike w ((fs'.lookup k).getD .null) := by
  induction fs generalizing fs' with
  | nil =>
    cases h
    exact .null
  | cons f fs ih =>
    cases h with
    | @cons l u u' _ fs' hu hfs =>
      rw [List.lookup_cons, List.lookup_cons]
      cases k == l with
      | true => exact hu
      | false => exact ih hfs

end FieldsAlike

/-! ## Scopes -/

namespace Scope.Alike

variable {i i' : ScopeId} {sc sc' : Scope} {b b' : Binding} {v v' : Value}

theorem find? (h : sc.Alike w i i' sc') (n : String) :
    Option.Rel (Binding.Alike w) (sc.find? n) (sc'.find? n) := by
  rw [Scope.find?, Scope.find?, h.constants]
  have hbs := h.bindings
  generalize sc.bindings = bs, sc'.bindings = bs' at hbs ⊢
  induction hbs with
  | nil => exact .none
  | @cons x x' _ _ hx _ ih =>
    rw [List.lookup_cons, List.lookup_cons, hx.1]
    cases n == x.1 with
    | true => exact .some (hx.2.bound _)
    | false => exact ih

theorem bind (h : sc.Alike w i i' sc') (n : String) (hb : b.Alike w b') :
    (sc.bind n b).Alike w i i' (sc'.bind n b') := by
  refine ⟨h.outer, .cons ⟨rfl, hb.value⟩ ?_, fun m => by rw [isConstant_bind, isConstant_bind, h.constants, hb.constant]⟩
  have hbs := h.bindings
  generalize sc.bindings = bs, sc'.bindings = bs' at hbs ⊢
  induction hbs with
  | nil => exact .nil
  | @cons x x' _ _ hx _ ih =>
    rw [List.filter_cons, List.filter_cons, hx.1]
    split
    · exact .cons hx ih
    · exact ih

theorem update (h : sc.Alike w i i' sc') (n : String) (hv : v.Alike w v') :
    (sc.update n v).Alike w i i' (sc'.update n v') := by
  refine ⟨h.outer, ?_, h.constants⟩
  rw [Scope.update, Scope.update, List.forall₂_map_left_iff, List.forall₂_map_right_iff]
  refine h.bindings.imp fun x x' hx => ⟨hx.1, ?_⟩
  simp only [hx.1]
  split
  · exact hv
  · exact hx.2

end Scope.Alike

/-! ## Operations on values -/

namespace Value.Alike

variable {place : Span → Span} {u u' v v' : Value}

def toStop {α : Type} (r : Except Fault α) : Except Stop α := r.mapError .fault

theorem combine (op : String) (s : Span) (hu : u.Alike w u') (hv : v.Alike w v') :
    EndedAlike place w Value.Alike (toStop (u.combine op s v)) (toStop (u'.combine op (place s) v')) := by
  cases hu with
  | number x =>
    cases hv with
    | number y =>
      rw [Value.combine, Value.combine]
      cases arithmetic? op with
      | none => exact .fault (.unknownOperator op s)
      | some f => exact .ok (.number _)
    | _ => exact .ok .null
  | _ => exact .ok .null

theorem key (s : Span) (hv : v.Alike w v') :
    EndedAlike place w (fun _ => Eq) (toStop (v.key s)) (toStop (v'.key (place s))) := by
  cases hv with
  | string t => exact .ok rfl
  | number x => exact .ok rfl
  | null => exact .fault (.invalidKey s .null)
  | boolean b => exact .fault (.invalidKey s (.boolean b))
  | object h => exact .fault (.invalidKey s (.object h))
  | native n name => exact .fault (.invalidKey s (.native n name))
  | function h => exact .fault (.invalidKey s (.function h))

theorem field (s : Span) (k : String) (hv : v.Alike w v') :
    EndedAlike place w Value.Alike (toStop (v.field s k)) (toStop (v'.field (place s) k)) := by
  cases hv with
  | object h => exact .ok (h.lookup k)
  | null => exact .fault (.notAnObject s .null)
  | boolean b => exact .fault (.notAnObject s (.boolean b))
  | number x => exact .fault (.notAnObject s (.number x))
  | string t => exact .fault (.notAnObject s (.string t))
  | native n name => exact .fault (.notAnObject s (.native n name))
  | function h => exact .fault (.notAnObject s (.function h))

end Value.Alike

/-! ## Stores -/

section
variable {place : Span → Span} {st st' : Store}

namespace Pairing.Holds

variable {i i' : ScopeId}

theorem binding? (h : w.Holds place st st') (hi : w.scope i i') (n : String) :
    Option.Rel (Binding.Alike w) (st.binding? i n) (st'.binding? i' n) := by
  obtain ⟨sc, sc', hs, hs', ha⟩ := h.scope hi
  rw [Store.binding?, Store.binding?, hs, hs']
  exact ha.find? n

theorem isSome_binding? (h : w.Holds place st st') (hi : w.scope i i') (n : String) :
    (st'.binding? i' n).isSome = (st.binding? i n).isSome := by
  have hb := h.binding? hi n
  generalize st.binding? i n = b, st'.binding? i' n = b' at hb ⊢
  cases hb <;> rfl

theorem isConstant (h : w.Holds place st st') (hi : w.scope i i') (n : String) :
    st'.isConstant i' n = st.isConstant i n := by
  obtain ⟨sc, sc', hs, hs', ha⟩ := h.scope hi
  rw [Store.isConstant, Store.isConstant, hs, hs']
  exact ha.constants n

theorem owner? (h : w.Holds place st st') (hi : w.scope i i') (n : String) :
    Option.Rel w.scope (st.owner? i n) (st'.owner? i' n) := by
  induction i using Nat.strongRecOn generalizing i' with
  | ind i ih =>
    obtain ⟨sc, sc', hs, hs', ha⟩ := h.scope hi
    rw [Store.owner?, Store.owner?]
    rcases ha.outer with ⟨ho, ho'⟩ | ⟨o, o', ho, ho', hlt, hlt', hw⟩
    · rw [Store.chain_of_outermost hs ho, Store.chain_of_outermost hs' ho', List.find?_cons, List.find?_cons,
        h.isSome_binding? hi]
      cases (st.binding? i n).isSome with
      | true => exact .some hi
      | false => exact .none
    · rw [Store.chain_of_outer hs ho hlt, Store.chain_of_outer hs' ho' hlt', List.find?_cons, List.find?_cons,
        h.isSome_binding? hi]
      cases (st.binding? i n).isSome with
      | true => exact .some hi
      | false => exact ih o hlt hw

theorem modifyScope (h : w.Holds place st st') (hi : w.scope i i') {change change' : Scope → Scope}
    (hc : ∀ sc sc', sc.Alike w i i' sc' → (change sc).Alike w i i' (change' sc')) :
    w.Holds place (st.modifyScope i change) (st'.modifyScope i' change') where
  scope {j j'} hj := by
    obtain ⟨sc, sc', hs, hs', ha⟩ := h.scope hj
    rw [Store.scopes_modifyScope, Store.scopes_modifyScope, hs, hs']
    by_cases hji : j = i
    · have hji' := (h.scope_unique hj hi).1 hji
      subst hji
      subst hji'
      exact ⟨_, _, if_pos rfl, if_pos rfl, hc sc sc' ha⟩
    · have hji' := mt (h.scope_unique hj hi).2 hji
      exact ⟨sc, sc', if_neg hji, if_neg hji', ha⟩
  function := h.function
  scope_unique := h.scope_unique
  function_unique := h.function_unique

theorem print (h : w.Holds place st st') (text : String) : w.Holds place (st.print text) (st'.print text) :=
  ⟨h.scope, h.function, h.scope_unique, h.function_unique⟩

theorem readClock (h : w.Holds place st st') : w.Holds place st.readClock.2 st'.readClock.2 :=
  ⟨h.scope, h.function, h.scope_unique, h.function_unique⟩

end Pairing.Holds

/-- The pairing with one pair more. -/
def Pairing.withScope (w : Pairing) (i i' : ScopeId) : Pairing :=
  { w with scope := fun j j' => w.scope j j' ∨ j = i ∧ j' = i' }

def Pairing.withFunction (w : Pairing) (g g' : FunctionId) : Pairing :=
  { w with function := fun h h' => w.function h h' ∨ h = g ∧ h' = g' }

theorem Pairing.within_withScope (w : Pairing) (i i' : ScopeId) : w.Within (w.withScope i i') := ⟨.inl, id⟩

theorem Pairing.within_withFunction (w : Pairing) (g g' : FunctionId) : w.Within (w.withFunction g g') :=
  ⟨id, .inl⟩

namespace Pairing.Holds

theorem lt_size (h : w.Holds place st st') {i i' : ScopeId} (hi : w.scope i i') :
    i < st.scopes.size ∧ i' < st'.scopes.size := by
  obtain ⟨sc, sc', hs, hs', -⟩ := h.scope hi
  exact ⟨(Array.getElem?_eq_some_iff.1 hs).1, (Array.getElem?_eq_some_iff.1 hs').1⟩

theorem function_lt_size (h : w.Holds place st st') {g g' : FunctionId} (hg : w.function g g') :
    g < st.functions.size ∧ g' < st'.functions.size := by
  obtain ⟨f, f', hf, hf', -⟩ := h.function hg
  exact ⟨(Array.getElem?_eq_some_iff.1 hf).1, (Array.getElem?_eq_some_iff.1 hf').1⟩

/-- New scopes inside scopes that stand for each other do so too. -/
theorem enclose (h : w.Holds place st st') {o o' : ScopeId} (ho : w.scope o o') :
    (w.withScope st.scopes.size st'.scopes.size).Holds place (st.addScope (some o)).2
      (st'.addScope (some o')).2 where
  scope {i i'} hi := by
    have hw := w.within_withScope st.scopes.size st'.scopes.size
    rcases hi with hi | ⟨rfl, rfl⟩
    · obtain ⟨sc, sc', hs, hs', ha⟩ := h.scope hi
      have hs := (Store.Grows.addScope st (some o)).scopes _ _ hs
      have hs' := (Store.Grows.addScope st' (some o')).scopes _ _ hs'
      exact ⟨sc, sc', hs, hs', ha.mono hw⟩
    · have hlt := h.lt_size ho
      refine ⟨.fresh (some o), .fresh (some o'), by simp [Store.addScope], by simp [Store.addScope], ?_, .nil, fun _ => rfl⟩
      exact .inr ⟨o, o', rfl, rfl, hlt.1, hlt.2, hw.scope ho⟩
  function hg := by
    obtain ⟨f, f', hf, hf', ha⟩ := h.function hg
    exact ⟨f, f', hf, hf', ha.mono (w.within_withScope _ _)⟩
  scope_unique {i i' j j'} hi hj := by
    rcases hi with hi | ⟨rfl, rfl⟩ <;> rcases hj with hj | ⟨rfl, rfl⟩
    · exact h.scope_unique hi hj
    · exact iff_of_false (Nat.ne_of_lt (h.lt_size hi).1) (Nat.ne_of_lt (h.lt_size hi).2)
    · exact iff_of_false (Nat.ne_of_gt (h.lt_size hj).1) (Nat.ne_of_gt (h.lt_size hj).2)
    · exact iff_of_true rfl rfl
  function_unique := h.function_unique

theorem addFunction (h : w.Holds place st st') {f f' : Function} (hf : f.Alike place w f') :
    (w.withFunction st.functions.size st'.functions.size).Holds place (st.addFunction f).2
      (st'.addFunction f').2 where
  scope hi := by
    obtain ⟨sc, sc', hs, hs', ha⟩ := h.scope hi
    exact ⟨sc, sc', hs, hs', ha.mono (w.within_withFunction _ _)⟩
  function {g g'} hg := by
    have hw := w.within_withFunction st.functions.size st'.functions.size
    rcases hg with hg | ⟨rfl, rfl⟩
    · obtain ⟨k, k', hk, hk', ha⟩ := h.function hg
      have hk := (Store.Grows.addFunction st f).functions _ _ hk
      have hk' := (Store.Grows.addFunction st' f').functions _ _ hk'
      exact ⟨k, k', hk, hk', ha.mono hw⟩
    · exact ⟨f, f', by simp [Store.addFunction], by simp [Store.addFunction], hf.mono hw⟩
  scope_unique := h.scope_unique
  function_unique {g g' k k'} hg hk := by
    rcases hg with hg | ⟨rfl, rfl⟩ <;> rcases hk with hk | ⟨rfl, rfl⟩
    · exact h.function_unique hg hk
    · exact iff_of_false (Nat.ne_of_lt (h.function_lt_size hg).1) (Nat.ne_of_lt (h.function_lt_size hg).2)
    · exact iff_of_false (Nat.ne_of_gt (h.function_lt_size hk).1) (Nat.ne_of_gt (h.function_lt_size hk).2)
    · exact iff_of_true rfl rfl

end Pairing.Holds

/-! ## Text -/

mutual

theorem Value.Alike.render (h : w.Holds place st st') (nested : Bool) :
    ∀ {v v' : Value}, v.Alike w v' → v'.render st'.functions nested = v.render st.functions nested
  | _, _, .null => rfl
  | _, _, .boolean _ => rfl
  | _, _, .number _ => rfl
  | _, _, .string _ => rfl
  | _, _, .object .nil => rfl
  | _, _, .object (.cons hv hfs) => by rw [Value.render, Value.render, (FieldsAlike.cons hv hfs).texts h]
  | _, _, .native _ _ => rfl
  | _, _, .function hg => by
    obtain ⟨f, f', hf, hf', ha⟩ := h.function hg
    simp only [Value.render, hf, hf', Function.text, ha.name, ha.parameters]

theorem FieldsAlike.texts (h : w.Holds place st st') :
    ∀ {fs fs' : List (String × Value)}, FieldsAlike w fs fs' →
      Value.fieldTexts st'.functions fs' = Value.fieldTexts st.functions fs
  | _, _, .nil => rfl
  | _, _, .cons hv hfs => by rw [Value.fieldTexts, Value.fieldTexts, hv.render h, hfs.texts h]

end

theorem Value.Alike.text (h : w.Holds place st st') {v v' : Value} (hv : v.Alike w v') :
    v'.text st'.functions = v.text st.functions :=
  hv.render h false

theorem Value.Alike.typeName {v v' : Value} (hv : v.Alike w v') : v'.typeName = v.typeName := by
  cases hv <;> rfl

theorem Value.Alike.argumentsText (h : w.Holds place st st') {vs vs' : List Value}
    (hvs : List.Forall₂ (Value.Alike w) vs vs') :
    Value.argumentsText st'.functions vs' = Value.argumentsText st.functions vs := by
  rw [Value.argumentsText, Value.argumentsText]
  congr 1
  induction hvs with
  | nil => rfl
  | cons hv _ ih => rw [List.map_cons, List.map_cons, hv.text h, ih]

theorem Fault.Alike.message (h : w.Holds place st st') {f f' : Fault} (hf : f.Alike place w f') :
    f'.message st'.functions = f.message st.functions := by
  cases hf with
  | notCallable _ hv | invalidKey _ hv => exact congrArg (_ ++ ·) (hv.text h)
  | notAnObject _ hv => exact congrArg (_ ++ ·) hv.typeName
  | _ => rfl

end

end RavenLang
