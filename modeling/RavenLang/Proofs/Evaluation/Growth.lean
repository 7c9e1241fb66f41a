import RavenLang.Action

/-!
# Stores that grow

Scopes and functions are added at the end, so those that are there keep their places.
-/

namespace RavenLang

theorem getElem?_push_of_eq_some {α : Type} {xs : Array α} {i : Nat} {x : α} (h : xs[i]? = some x) (y : α) :
    (xs.push y)[i]? = some x := by
  have hi := (Array.getElem?_eq_some_iff.1 h).1
  rw [Array.getElem?_push, if_neg (Nat.ne_of_lt hi)]
  exact h

/-- All scopes and functions are there as they were, maybe with others behind them. -/
structure Store.Grows (st st' : Store) : Prop where
  scopes : ∀ (i : ScopeId) (sc : Scope), st.scopes[i]? = some sc → st'.scopes[i]? = some sc
  functions : ∀ (g : FunctionId) (f : Function), st.functions[g]? = some f → st'.functions[g]? = some f

namespace Store.Grows

theorem refl (st : Store) : st.Grows st := ⟨fun _ _ h => h, fun _ _ h => h⟩

theorem addScope (st : Store) (outer : Option ScopeId) : st.Grows (st.addScope outer).2 := by
  refine ⟨fun i sc hs => ?_, fun _ _ h => h⟩
  exact getElem?_push_of_eq_some hs _

theorem addFunction (st : Store) (f : Function) : st.Grows (st.addFunction f).2 := by
  refine ⟨fun _ _ h => h, fun g f' hf => ?_⟩
  exact getElem?_push_of_eq_some hf _

theorem print (st : Store) (text : String) : st.Grows (st.print text) := ⟨fun _ _ h => h, fun _ _ h => h⟩

theorem readClock (st : Store) : st.Grows st.readClock.2 := ⟨fun _ _ h => h, fun _ _ h => h⟩

-- only the scope just made is written to
theorem setConstant {st st' : Store} {id : ScopeId} (h : st.Grows st') (hid : st.scopes.size ≤ id)
    (name : String) (value : Value) : st.Grows (st'.setConstant id name value) := by
  refine ⟨fun i sc hs => ?_, h.functions⟩
  have hi := (Array.getElem?_eq_some_iff.1 hs).1
  rw [Store.setConstant, scopes_modifyScope, if_neg (Nat.ne_of_lt (Nat.lt_of_lt_of_le hi hid))]
  exact h.scopes i sc hs

theorem addGlobal (st : Store) : st.Grows st.addGlobal.2 := by
  have hid : st.scopes.size ≤ (st.addScope none).1 := Nat.le_refl _
  have h := Grows.addScope st none
  have h := h.setConstant hid "true" (.boolean true)
  have h := h.setConstant hid "false" (.boolean false)
  have h := h.setConstant hid "null" .null
  have h := h.setConstant hid "print" (.native .print "print")
  exact h.setConstant hid "time" (.native .time "time")

end Store.Grows

end RavenLang
