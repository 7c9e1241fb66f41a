import RavenLang.Proofs.Evaluation.Session
import RavenLang.Proofs.Evaluation.Writes

/-!
# Simple expressions

An expression without calls and assignments leaves the store as it is, and of the store it sees no more than what
its free names are bound to.
-/

namespace RavenLang

/-! ## Free names -/

mutual

/-- Without calls and assignments. -/
def Expr.Simple : Expr → Prop
  | .name .. | .number .. | .string .. => True
  | .object _ es => Entry.AllSimple es
  | .binary _ _ l r => l.Simple ∧ r.Simple
  | .member _ _ object property => object.Simple ∧ property.Simple
  | .assign .. | .call .. => False

def Entry.AllSimple : List Entry → Prop
  | [] => True
  | .shorthand .. :: es => Entry.AllSimple es
  | .pair _ _ value :: es => value.Simple ∧ Entry.AllSimple es

end

mutual

/-- The names that are looked up. The name of a plain member is none of them. -/
def Expr.freeNames : Expr → List String
  | .name _ n => [n]
  | .number .. | .string .. => []
  | .object _ es => Entry.freeNamesAll es
  | .binary _ _ l r => l.freeNames ++ r.freeNames
  | .assign _ target value => target.freeNames ++ value.freeNames
  | .call _ f as => Expr.freeNamesAll as ++ f.freeNames
  | .member _ computed object property =>
    object.freeNames ++
      match if computed then none else property.name? with
      | some _ => []
      | none => property.freeNames

def Entry.freeNamesAll : List Entry → List String
  | [] => []
  | .shorthand _ k :: es => k :: Entry.freeNamesAll es
  | .pair _ _ value :: es => value.freeNames ++ Entry.freeNamesAll es

def Expr.freeNamesAll : List Expr → List String
  | [] => []
  | e :: es => e.freeNames ++ Expr.freeNamesAll es

end

/-! ## Actions that come to the same -/

/-- In either store the action gives the same value or the same fault, and leaves the store as it is. -/
def Action.Coincide {α : Type} (a a' : Action α) (st st' : Store) : Prop :=
  ∃ r : Except Fault α, a.perform st = (r.mapError .fault, st) ∧ a'.perform st' = (r.mapError .fault, st')

namespace Action.Coincide

variable {α β : Type} {a a' : Action α} {st st' : Store}

theorem pure (x : α) : Coincide (pure x) (pure x) st st' := ⟨.ok x, rfl, rfl⟩

theorem ofExcept (r : Except Fault α) : Coincide (.ofExcept r) (.ofExcept r) st st' := by
  refine ⟨r, ?_⟩
  cases r <;> exact ⟨rfl, rfl⟩

theorem bind {f f' : α → Action β} (h : a.Coincide a' st st') (hf : ∀ x, (f x).Coincide (f' x) st st') :
    (a >>= f).Coincide (a' >>= f') st st' := by
  obtain ⟨r, ha, ha'⟩ := h
  unfold Coincide
  simp only [perform_bind, ha, ha']
  cases r with
  | ok x => exact hf x
  | error fault => exact ⟨.error fault, rfl, rfl⟩

theorem map (h : a.Coincide a' st st') (f : α → β) :
    Action.Coincide (do return f (← a)) (do return f (← a')) st st' :=
  h.bind fun x => .pure (f x)

theorem lookup {i j : ScopeId} {n : String} (h : ∀ span, st.read i n span = st'.read j n span) (span : Span) :
    Coincide (.lookup i n span) (.lookup j n span) st st' := by
  unfold Coincide
  rw [Store.perform_lookup_eq, Store.perform_lookup_eq, ← h span, Store.read_eq]
  cases (st.owner? i n).bind (st.binding? · n) with
  | none => exact ⟨.error _, rfl, rfl⟩
  | some b => exact ⟨.ok b.value, rfl, rfl⟩

end Action.Coincide

/-! ## Evaluation -/

section
variable {calls calls' : Calls} {i j : ScopeId} {st st' : Store}

mutual

theorem Expr.Simple.evals_coincide {e : Expr} (he : e.Simple)
    (h : ∀ n ∈ e.freeNames, ∀ span, st.read i n span = st'.read j n span) :
    (e.eval calls i).Coincide (e.eval calls' j) st st' := by
  match e with
  | .name span n => exact .lookup (h n List.mem_cons_self) span
  | .number _ x => exact .pure _
  | .string _ s => exact .pure _
  | .object _ es =>
    unfold Expr.eval
    exact (Entry.AllSimple.evals_coincide he h).map _
  | .binary span op l r =>
    obtain ⟨hl, hr⟩ := List.forall_mem_append.1 h
    unfold Expr.eval
    apply Action.Coincide.bind (Expr.Simple.evals_coincide he.1 hl)
    intro x
    apply Action.Coincide.bind (Expr.Simple.evals_coincide he.2 hr)
    intro y
    exact .ofExcept _
  | .member span computed object property =>
    obtain ⟨hobject, hproperty⟩ := List.forall_mem_append.1 h
    unfold Expr.eval
    apply Action.Coincide.bind (Expr.Simple.evals_coincide he.1 hobject)
    intro target
    cases hn : if computed then none else property.name? with
    | some n => exact .ofExcept _
    | none =>
      rw [hn] at hproperty
      apply Action.Coincide.bind (Expr.Simple.evals_coincide he.2 hproperty)
      intro x
      apply Action.Coincide.bind (.ofExcept _)
      intro k
      exact .ofExcept _

theorem Entry.AllSimple.evals_coincide {es : List Entry} (hes : Entry.AllSimple es)
    (h : ∀ n ∈ Entry.freeNamesAll es, ∀ span, st.read i n span = st'.read j n span) :
    (Entry.evalAll calls i es).Coincide (Entry.evalAll calls' j es) st st' := by
  match es with
  | [] => exact .pure _
  | .shorthand span k :: es =>
    have hes : Entry.AllSimple es := hes
    obtain ⟨hk, h⟩ := List.forall_mem_cons.1 h
    unfold Entry.evalAll Entry.eval
    apply Action.Coincide.bind ((Action.Coincide.lookup hk span).map _)
    intro p
    exact (Entry.AllSimple.evals_coincide hes h).map _
  | .pair span k value :: es =>
    obtain ⟨hvalue, h⟩ := List.forall_mem_append.1 h
    unfold Entry.evalAll Entry.eval
    apply Action.Coincide.bind ((Expr.Simple.evals_coincide hes.1 hvalue).map _)
    intro p
    exact (Entry.AllSimple.evals_coincide hes.2 h).map _

end

end

/-- A simple expression whose free names stand for the same values, or for nothing, gives the same value or the same
fault at the same place, in whatever scopes of whatever stores it is evaluated, and leaves both stores as they are. -/
theorem Expr.Simple.coincidence {e : Expr} (he : e.Simple) {i j : ScopeId} {st st' : Store}
    (h : ∀ n ∈ e.freeNames,
      (∃ v, ∀ span, st.read i n span = .ok v ∧ st'.read j n span = .ok v) ∨
        ∀ span, st.read i n span = .error (.fault (.unbound n span)) ∧
          st'.read j n span = .error (.fault (.unbound n span)))
    (calls calls' : Calls) :
    ∃ r : Except Fault Value, (e.eval calls i).perform st = (r.mapError .fault, st) ∧
      (e.eval calls' j).perform st' = (r.mapError .fault, st') := by
  apply he.evals_coincide
  intro n hn span
  rcases h n hn with ⟨v, hv⟩ | hunbound
  · rw [(hv span).1, (hv span).2]
  · rw [(hunbound span).1, (hunbound span).2]

/-- A name that only one of the two scopes binds stands as the key of an entry and as that of a plain member, and
one that neither binds is looked up. -/
theorem Expr.Simple.coincidence_keys :
    let s : Span := default
    let st : Store := .populated
    let st' := ((Action.declare 1 "x" ⟨.string "y", false⟩ s).perform (st.addScope (some global)).2).2
    let o : Expr :=
      .object s [.shorthand s "true", .pair s "x" (.binary s "+" (.name s "null") (.number s 1))]
    let e : Expr := .member s true (.member s false o (.name s "x")) (.name s "z")
    let calls := (Host.plain default).calls 1
    st.owner? global "x" = none ∧ st'.owner? 1 "x" = some 1 ∧ e.Simple ∧ e.freeNames = ["true", "null", "z"] ∧
      (∀ span, st.read global "true" span = st'.read 1 "true" span) ∧
      (∀ span, st.read global "z" span = .error (.fault (.unbound "z" span))) ∧
      (e.eval calls global).perform st = (.error (.fault (.unbound "z" s)), st) ∧
      (e.eval calls 1).perform st' = (.error (.fault (.unbound "z" s)), st') := by
  intro s st st' o e calls
  have hread {n : String} {v : Value} (ho : st.owner? global n = some global) (ho' : st'.owner? 1 n = some global)
      (hb : st.binding? global n = some ⟨v, true⟩) (hb' : st'.binding? global n = some ⟨v, true⟩) (span : Span) :
      st.read global n span = .ok v ∧ st'.read 1 n span = .ok v := by
    rw [Store.read_eq, Store.read_eq, ho, ho', Option.bind_some, Option.bind_some, hb, hb']
    exact ⟨rfl, rfl⟩
  have htrue := hread (n := "true") (v := .boolean true) (by decide +kernel) (by decide +kernel) rfl rfl
  have hnull := hread (n := "null") (v := .null) (by decide +kernel) (by decide +kernel) rfl rfl
  have hz (span : Span) : st.read global "z" span = .error (.fault (.unbound "z" span)) ∧
      st'.read 1 "z" span = .error (.fault (.unbound "z" span)) := by
    have ho : st.owner? global "z" = none := by decide +kernel
    have ho' : st'.owner? 1 "z" = none := by decide +kernel
    rw [Store.read_eq, Store.read_eq, ho, ho']
    exact ⟨rfl, rfl⟩
  have he : e.Simple := by simp [e, o, Expr.Simple, Entry.AllSimple]
  have hran : (e.eval calls global).perform st = (.error (.fault (.unbound "z" s)), st) := by
    simp [e, o, Expr.eval, Entry.evalAll, Entry.eval, Action.perform_bind, Store.perform_lookup_eq, htrue, hnull, hz,
      Expr.name?, Action.ofExcept, Value.combine, Value.field]
  -- the second scope is left to the theorem
  obtain ⟨r, hr, hr'⟩ : ∃ r : Except Fault Value, (e.eval calls global).perform st = (r.mapError .fault, st) ∧
      (e.eval calls 1).perform st' = (r.mapError .fault, st') := by
    apply Expr.Simple.coincidence he
    intro n hn
    have hn : n ∈ ["true", "null", "z"] := hn
    simp only [List.mem_cons, List.not_mem_nil, or_false] at hn
    rcases hn with rfl | rfl | rfl
    · exact .inl ⟨.boolean true, htrue⟩
    · exact .inl ⟨.null, hnull⟩
    · exact .inr hz
  have hfault := (Prod.mk.inj (hr.symm.trans hran)).1
  rw [hfault] at hr'
  refine ⟨by decide +kernel, by decide +kernel, he, rfl, fun span => ?_, fun span => (hz span).1, hran, hr'⟩
  rw [(htrue span).1, (htrue span).2]

end RavenLang
