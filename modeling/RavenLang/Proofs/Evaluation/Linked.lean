import RavenLang.Proofs.Evaluation.Raised

/-!
# Linked stores

Scopes refer to older scopes, and functions to scopes and values to functions that are there. Scopes refer
to functions again, through the values that they bind, so a store is full of cycles: the order of age holds
of the way outwards only.
-/

namespace RavenLang

/-! ## Values -/

mutual

/-- The functions in a value, at any depth. -/
def Value.functionIds : Value → List FunctionId
  | .object fields => Value.functionIdsOfFields fields
  | .function id => [id]
  | _ => []

def Value.functionIdsOfFields : List (String × Value) → List FunctionId
  | [] => []
  | (_, v) :: fields => v.functionIds ++ Value.functionIdsOfFields fields

end

theorem Value.mem_functionIdsOfFields {g : FunctionId} {fields : List (String × Value)} :
    g ∈ functionIdsOfFields fields ↔ ∃ p ∈ fields, g ∈ p.2.functionIds := by
  induction fields with
  | nil => simp [functionIdsOfFields]
  | cons p fields ih => simp [functionIdsOfFields, ih]

/-- The value that a fault is about. -/
def Fault.value? : Fault → Option Value
  | .notCallable v _ | .notAnObject v _ | .invalidKey v _ => some v
  | _ => none

namespace Store

def Knows (st : Store) (v : Value) : Prop := ∀ g ∈ v.functionIds, g < st.functions.size

def KnowsAll (st : Store) (vs : List Value) : Prop := ∀ v ∈ vs, st.Knows v

/-- References are good, and what is marked as a constant is bound. -/
structure Linked (st : Store) : Prop where
  outer : ∀ {i : ScopeId} {sc : Scope} {o : ScopeId}, st.scopes[i]? = some sc → sc.outer = some o → o < i
  bound : ∀ {i : ScopeId} {sc : Scope}, st.scopes[i]? = some sc → ∀ p ∈ sc.bindings, st.Knows p.2
  marked : st.Marked
  declared : ∀ {g : FunctionId} {f : Function}, st.functions[g]? = some f → f.scope < st.scopes.size

/-- References that are good in the first store are good in the second. -/
structure Smaller (st st' : Store) : Prop where
  scopes : st.scopes.size ≤ st'.scopes.size
  functions : st.functions.size ≤ st'.functions.size

variable {st st' st'' : Store}

theorem Smaller.refl (st : Store) : st.Smaller st := ⟨Nat.le_refl _, Nat.le_refl _⟩

theorem Smaller.trans (h : st.Smaller st') (h' : st'.Smaller st'') : st.Smaller st'' :=
  ⟨Nat.le_trans h.scopes h'.scopes, Nat.le_trans h.functions h'.functions⟩

theorem Knows.mono {v : Value} (h : st.Knows v) (hle : st.Smaller st') : st'.Knows v :=
  fun g hg => Nat.lt_of_lt_of_le (h g hg) hle.functions

theorem KnowsAll.mono {vs : List Value} (h : st.KnowsAll vs) (hle : st.Smaller st') : st'.KnowsAll vs :=
  fun v hv => (h v hv).mono hle

theorem knows_null : st.Knows .null := nofun

theorem knows_number (x : Float) : st.Knows (.number x) := nofun

theorem knows_string (s : String) : st.Knows (.string s) := nofun

theorem knows_function {g : FunctionId} : st.Knows (.function g) ↔ g < st.functions.size := by
  simp [Knows, Value.functionIds]

theorem knows_object {fields : List (String × Value)} :
    st.Knows (.object fields) ↔ ∀ p ∈ fields, st.Knows p.2 := by
  simp only [Knows, Value.functionIds, Value.mem_functionIdsOfFields]
  exact ⟨fun h p hp g hg => h g ⟨p, hp, hg⟩, fun h g ⟨p, hp, hg⟩ => h p hp g hg⟩

theorem KnowsAll.head {vs : List Value} (h : st.KnowsAll vs) : st.Knows (vs.headD .null) := by
  cases vs with
  | nil => exact knows_null
  | cons v vs => exact h v List.mem_cons_self

theorem KnowsAll.tail {vs : List Value} (h : st.KnowsAll vs) : st.KnowsAll vs.tail :=
  fun v hv => h v (List.mem_of_mem_tail hv)

end Store

theorem mem_of_lookup_eq_some {α : Type} {k : String} {x : α} {xs : List (String × α)}
    (h : xs.lookup k = some x) : (k, x) ∈ xs := by
  obtain ⟨before, behind, rfl, -⟩ := List.lookup_eq_some_iff.1 h
  exact List.mem_append_right before List.mem_cons_self

theorem mem_insertField {p : String × Value} {key : String} {value : Value} {fields : List (String × Value)}
    (h : p ∈ insertField key value fields) : p = (key, value) ∨ p ∈ fields := by
  induction fields with
  | nil => exact .inl (List.mem_singleton.1 h)
  | cons q fields ih =>
    rw [insertField] at h
    split at h
    · exact List.mem_cons.1 h
    · split at h
      · exact (List.mem_cons.1 h).imp_right (List.mem_cons_of_mem q)
      · rcases List.mem_cons.1 h with rfl | h
        · exact .inr List.mem_cons_self
        · exact (ih h).imp_right (List.mem_cons_of_mem q)

theorem mem_fieldsOfEntries {p : String × Value} {entries : List (String × Value)}
    (h : p ∈ fieldsOfEntries entries) : p ∈ entries := by
  suffices hfold : ∀ fields, p ∈ entries.foldl (fun fields entry => insertField entry.1 entry.2 fields) fields →
      p ∈ fields ∨ p ∈ entries from (hfold [] h).resolve_left List.not_mem_nil
  clear h
  intro fields h
  induction entries generalizing fields with
  | nil => exact .inl h
  | cons e entries ih =>
    rcases ih _ h with h | h
    · rcases mem_insertField h with rfl | h
      · exact .inr List.mem_cons_self
      · exact .inl h
    · exact .inr (List.mem_cons_of_mem e h)

namespace Value

variable {st : Store} {v : Value}

theorem knows_of_combine {op : String} {span : Span} {x y : Value} (h : x.combine op span y = .ok v) :
    st.Knows v := by
  unfold combine at h
  split at h
  · split at h
    · cases h
      exact Store.knows_number _
    · cases h
  · cases h
    exact Store.knows_null

theorem knows_of_field {span : Span} {k : String} {x : Value} (hx : st.Knows x) (h : x.field span k = .ok v) :
    st.Knows v := by
  unfold field at h
  split at h
  · next fields =>
    cases h
    cases hl : fields.lookup k with
    | none => exact Store.knows_null
    | some w => exact Store.knows_object.1 hx (k, w) (mem_of_lookup_eq_some hl)
  · cases h

end Value

/-! ## Every change keeps a store linked -/

namespace Store.Linked

variable {st st' : Store} (h : st.Linked)

include h

theorem binding {i : ScopeId} {n : String} {b : Binding} (hb : st.binding? i n = some b) : st.Knows b.value := by
  obtain ⟨sc, hs, hn⟩ := Option.bind_eq_some_iff.1 hb
  obtain ⟨v, hv, rfl⟩ := Option.map_eq_some_iff.1 hn
  exact h.bound hs (n, v) (mem_of_lookup_eq_some hv)

theorem modifyScope {i : ScopeId} {change : Scope → Scope}
    (hc : ∀ sc, st.scopes[i]? = some sc → (change sc).outer = sc.outer ∧
      (∀ p ∈ (change sc).bindings, st.Knows p.2) ∧ (change sc).Marked) :
    (st.modifyScope i change).Linked := by
  have old {j : ScopeId} {sc : Scope} (hs : (st.modifyScope i change).scopes[j]? = some sc) :
      ∃ sc', st.scopes[j]? = some sc' ∧ sc.outer = sc'.outer ∧ (∀ p ∈ sc.bindings, st.Knows p.2) ∧
        sc.Marked := by
    rw [scopes_modifyScope] at hs
    split at hs
    · next hji =>
      subst hji
      obtain ⟨sc', hs', rfl⟩ := Option.map_eq_some_iff.1 hs
      exact ⟨sc', hs', hc sc' hs'⟩
    · exact ⟨sc, hs, rfl, h.bound hs, h.marked _ _ hs⟩
  refine ⟨fun hs ho => ?_, fun hs => ?_, fun i sc hs => ?_, fun hf => ?_⟩
  · obtain ⟨sc', hs', houter, -⟩ := old hs
    exact h.outer hs' (houter ▸ ho)
  · obtain ⟨-, -, -, hb, -⟩ := old hs
    exact hb
  · obtain ⟨-, -, -, -, hm⟩ := old hs
    exact hm
  · rw [scopes_size_modifyScope]
    exact h.declared hf

theorem bind {i : ScopeId} {n : String} {b : Binding} (hb : st.Knows b.value) :
    (st.modifyScope i (·.bind n b)).Linked := by
  refine h.modifyScope fun sc hs => ⟨rfl, fun p hp => ?_, fun m hm => ?_⟩
  · rcases List.mem_cons.1 hp with rfl | hp
    · exact hb
    · exact h.bound hs p (List.mem_filter.1 hp).1
  · have hm : m ∈ sc.constants ∨ m = n := by
      have hmark : (sc.bind n b).isConstant m = true := decide_eq_true hm
      rw [Scope.isConstant_bind, Bool.or_eq_true, Bool.and_eq_true] at hmark
      exact hmark.imp of_decide_eq_true fun hmark => of_decide_eq_true hmark.2
    exact Scope.mem_names_bind.2 (hm.symm.imp_right (h.marked _ sc hs m))

theorem update {i : ScopeId} {n : String} {v : Value} (hv : st.Knows v) :
    (st.modifyScope i (·.update n v)).Linked := by
  refine h.modifyScope fun sc hs => ⟨rfl, fun p hp => ?_, fun m hm => ?_⟩
  · obtain ⟨q, hq, rfl⟩ := List.mem_map.1 hp
    by_cases hn : q.1 = n
    · simpa only [if_pos hn] using hv
    · simpa only [if_neg hn] using h.bound hs q hq
  · rw [Scope.names_update]
    exact h.marked _ sc hs m hm

theorem addScope {outer : Option ScopeId} (ho : ∀ o, outer = some o → o < st.scopes.size) :
    (st.addScope outer).2.Linked := by
  have old {j : ScopeId} {sc : Scope} (hs : (st.addScope outer).2.scopes[j]? = some sc) :
      st.scopes[j]? = some sc ∨ j = st.scopes.size ∧ sc = .fresh outer := by
    simp only [Store.addScope, Array.getElem?_push] at hs
    split at hs
    · next hj =>
      cases hs
      exact .inr ⟨hj, rfl⟩
    · exact .inl hs
  refine ⟨fun {i sc o} hs hout => ?_, fun {i sc} hs => ?_, fun i sc hs => ?_, fun hf => ?_⟩
  · obtain hs | ⟨rfl, rfl⟩ := old hs
    · exact h.outer hs hout
    · exact ho o hout
  · obtain hs | ⟨rfl, rfl⟩ := old hs
    · exact h.bound hs
    · exact fun _ hp => absurd hp List.not_mem_nil
  · obtain hs | ⟨rfl, rfl⟩ := old hs
    · exact h.marked _ _ hs
    · exact fun _ hm => absurd hm List.not_mem_nil
  · have hlt := h.declared hf
    simp only [Store.addScope, Array.size_push]
    exact Nat.lt_succ_of_lt hlt

theorem addFunction {f : Function} (hf : f.scope < st.scopes.size) : (st.addFunction f).2.Linked := by
  have hle : st.Smaller (st.addFunction f).2 := ⟨Nat.le_refl _, by simp [Store.addFunction]⟩
  refine ⟨h.outer, fun hs p hp => (h.bound hs p hp).mono hle, h.marked, fun {g f'} hg => ?_⟩
  simp only [Store.addFunction, Array.getElem?_push] at hg
  split at hg
  · cases hg
    exact hf
  · exact h.declared hg

theorem print (text : String) : (st.print text).Linked := ⟨h.outer, h.bound, h.marked, h.declared⟩

theorem readClock : st.readClock.2.Linked := ⟨h.outer, h.bound, h.marked, h.declared⟩

end Store.Linked

namespace Store.Smaller

theorem modifyScope (st : Store) (i : ScopeId) (change : Scope → Scope) : st.Smaller (st.modifyScope i change) :=
  ⟨Nat.le_of_eq (scopes_size_modifyScope ..).symm, Nat.le_refl _⟩

theorem addScope (st : Store) (outer : Option ScopeId) : st.Smaller (st.addScope outer).2 :=
  ⟨by simp [Store.addScope], Nat.le_refl _⟩

theorem addFunction (st : Store) (f : Function) : st.Smaller (st.addFunction f).2 :=
  ⟨Nat.le_refl _, by simp [Store.addFunction]⟩

end Store.Smaller

/-- The scope of a call. -/
theorem Store.Linked.enclose {st : Store} (h : st.Linked) {id : FunctionId} {f : Function}
    (hf : st.functions[id]? = some f) :
    (st.addScope (some f.scope)).2.Linked ∧ st.Smaller (st.addScope (some f.scope)).2 ∧
      st.scopes.size < (st.addScope (some f.scope)).2.scopes.size := by
  refine ⟨h.addScope fun o ho => ?_, .addScope .., by simp [Store.addScope]⟩
  cases ho
  exact h.declared hf

end RavenLang
