import RavenLang.Proofs.Evaluation.Frames
import RavenLang.Proofs.Evaluation.Reaches

/-!
# What is read behind a write

A write changes one name of one scope. The new value is read wherever that scope is the first on the way
out that binds the name, and all else is read as before.
-/

namespace RavenLang

namespace Store

/-! ## Names on the way out -/

/-- No scope from one on the way out to another binds the name, the other one left aside. -/
inductive Unhidden (st : Store) (n : String) : ScopeId → ScopeId → Prop
  | itself {i} : Unhidden st n i i
  | outward {i sc o j} : st.scopes[i]? = some sc → sc.outer = some o → st.binding? i n = none →
      Unhidden st n o j → Unhidden st n i j

/-- The name that is seen from the first scope is the one that the second binds. -/
def Resolves (st : Store) (n : String) (i j : ScopeId) : Prop :=
  st.Unhidden n i j ∧ (st.binding? j n).isSome = true

variable {st st' : Store} {n : String} {i j : ScopeId}

theorem Unhidden.of_isSome (h : st.Unhidden n i j) (hi : (st.binding? i n).isSome = true) : i = j := by
  cases h with
  | itself => rfl
  | outward _ _ hnone => simp [hnone] at hi

theorem Unhidden.of_outermost (h : st.Unhidden n i j) {sc : Scope} (hs : st.scopes[i]? = some sc)
    (ho : sc.outer = none) : i = j := by
  cases h with
  | itself => rfl
  | outward hs' ho' =>
    cases hs.symm.trans hs'
    cases ho.symm.trans ho'

theorem Unhidden.of_size_le (h : st.Unhidden n i j) (hi : st.scopes.size ≤ i) : i = j := by
  cases h with
  | itself => rfl
  | outward hs =>
    rw [Array.getElem?_eq_none hi] at hs
    cases hs

theorem unhidden_outward {sc : Scope} {o : ScopeId} (hs : st.scopes[i]? = some sc) (ho : sc.outer = some o)
    (hnone : st.binding? i n = none) (hij : i ≠ j) : st.Unhidden n i j ↔ st.Unhidden n o j := by
  refine ⟨fun h => ?_, .outward hs ho hnone⟩
  cases h with
  | itself => exact absurd rfl hij
  | outward hs' ho' _ h =>
    cases hs.symm.trans hs'
    cases ho.symm.trans ho'
    exact h

theorem binding?_of_size_le (h : st.scopes.size ≤ i) : st.binding? i n = none := by
  rw [binding?, Array.getElem?_eq_none h, Option.bind_none]

theorem chain_of_size_le (h : st.scopes.size ≤ i) : st.chain i = [] := by
  rw [chain, Array.getElem?_eq_none h]

theorem Linked.owner?_eq_some_iff (h : st.Linked) : st.owner? i n = some j ↔ st.Resolves n i j := by
  induction i using Nat.strongRecOn with
  | ind i ih =>
    rcases Nat.lt_or_ge i st.scopes.size with hi | hi
    · have hs := Array.getElem?_eq_getElem hi
      rw [h.owner?_eq hs]
      by_cases hb : (st.binding? i n).isSome = true
      · rw [if_pos hb, Option.some_inj]
        exact ⟨fun hij => hij ▸ ⟨.itself, hb⟩, fun hr => hr.1.of_isSome hb⟩
      · rw [if_neg hb]
        have hne (hr : st.Resolves n i j) : i ≠ j := fun hij => hb (hij ▸ hr.2)
        cases ho : (st.scopes[i]).outer with
        | none =>
          refine ⟨fun hj => ?_, fun hr => absurd (hr.1.of_outermost hs ho) (hne hr)⟩
          cases hj
        | some o =>
          have hnone := Option.not_isSome_iff_eq_none.1 hb
          rw [Option.bind_some, ih o (h.outer hs ho)]
          refine ⟨fun hr => ⟨.outward hs ho hnone hr.1, hr.2⟩, fun hr => ⟨?_, hr.2⟩⟩
          exact (unhidden_outward hs ho hnone (hne hr)).1 hr.1
    · rw [owner?, chain_of_size_le hi]
      constructor
      · intro hj
        cases hj
      · rintro ⟨hu, hb⟩
        rw [← hu.of_size_le hi, binding?_of_size_le hi] at hb
        cases hb

/-! ## One scope is changed -/

theorem chain_modifyScope {id : ScopeId} {change : Scope → Scope} (hc : ∀ sc, (change sc).outer = sc.outer)
    (i : ScopeId) : (st.modifyScope id change).chain i = st.chain i := by
  induction i using Nat.strongRecOn with
  | ind i ih =>
    have houter : (st.modifyScope id change).scopes[i]?.map (·.outer) = st.scopes[i]?.map (·.outer) := by
      rw [scopes_modifyScope]
      split <;> simp [Function.comp_def, hc]
    rw [chain, chain]
    generalize (st.modifyScope id change).scopes[i]? = sc', st.scopes[i]? = sc at houter
    cases sc with
    | none => rw [Option.map_eq_none_iff.1 houter]
    | some sc =>
      obtain ⟨sc', rfl, ho⟩ := Option.map_eq_some_iff.1 houter
      simp only [ho]
      cases sc.outer with
      | none => rfl
      | some o =>
        by_cases hlt : o < i
        · simp only [if_pos hlt, ih o hlt]
        · simp only [if_neg hlt]

theorem owner?_modifyScope {id : ScopeId} {change : Scope → Scope} (hc : ∀ sc, (change sc).outer = sc.outer)
    (i : ScopeId) (m : String) :
    (st.modifyScope id change).owner? i m =
      (st.chain i).find? fun j => ((st.modifyScope id change).binding? j m).isSome := by
  rw [owner?, chain_modifyScope hc]

theorem binding?_update (st : Store) (o : ScopeId) (n : String) (v : Value) (i : ScopeId) (m : String) :
    (st.modifyScope o (·.update n v)).binding? i m =
      if i = o ∧ m = n then (st.binding? i m).map ({ · with value := v }) else st.binding? i m := by
  rw [binding?_modifyScope, binding?]
  cases st.scopes[i]? with
  | none => simp
  | some sc =>
    by_cases hi : i = o
    · simp [hi, Scope.find?_update]
    · simp [hi]

theorem binding?_bind_eq (st : Store) {e : ScopeId} (he : e < st.scopes.size) (n : String) (b : Binding)
    (i : ScopeId) (m : String) :
    (st.modifyScope e (·.bind n b)).binding? i m =
      if i = e ∧ m = n then some ⟨b.value, st.isConstant e n || b.constant⟩ else st.binding? i m := by
  by_cases hi : i = e
  · subst hi
    simp [binding?_bind he]
  · rw [binding?_modifyScope, if_neg hi, if_neg fun h => hi h.1]

theorem owner?_update (st : Store) (o : ScopeId) (n : String) (v : Value) (i : ScopeId) (m : String) :
    (st.modifyScope o (·.update n v)).owner? i m = st.owner? i m := by
  rw [owner?_modifyScope (Scope.outer_update · n v), owner?]
  refine List.find?_congr fun j _ => ?_
  rw [binding?_update]
  split <;> simp

theorem owner?_bind_of_ne (st : Store) {e : ScopeId} (he : e < st.scopes.size) {m n : String} (hm : m ≠ n)
    (b : Binding) (i : ScopeId) : (st.modifyScope e (·.bind n b)).owner? i m = st.owner? i m := by
  rw [owner?_modifyScope (Scope.outer_bind · n b), owner?]
  refine List.find?_congr fun j _ => ?_
  rw [binding?_bind_eq st he, if_neg fun h => hm h.2]

/-- A new name of a scope is seen from where nothing hides the scope. -/
theorem Linked.owner?_bind (h : st.Linked) {e : ScopeId} (he : e < st.scopes.size)
    (hnew : st.binding? e n = none) (b : Binding) (i : ScopeId) :
    (st.Unhidden n i e → (st.modifyScope e (·.bind n b)).owner? i n = some e) ∧
      (¬ st.Unhidden n i e → (st.modifyScope e (·.bind n b)).owner? i n = st.owner? i n) := by
  rw [owner?_modifyScope (Scope.outer_bind · n b), owner?]
  -- the way out is the same, and a scope before the new name hides it or is passed by both
  induction i using Nat.strongRecOn with
  | ind i ih =>
    rcases Nat.lt_or_ge i st.scopes.size with hi | hi
    · have hs := Array.getElem?_eq_getElem hi
      rw [h.chain_eq hs, List.find?_cons, List.find?_cons, binding?_bind_eq st he]
      by_cases hie : i = e
      · subst hie
        simp only [and_self, if_true, Option.isSome_some]
        exact ⟨fun _ => trivial, fun hu => absurd .itself hu⟩
      · rw [if_neg fun h => hie h.1]
        cases hb : st.binding? i n with
        | some b' => exact ⟨fun hu => absurd (hu.of_isSome (by rw [hb]; rfl)) hie, fun _ => rfl⟩
        | none =>
          cases ho : (st.scopes[i]).outer with
          | none => exact ⟨fun hu => absurd (hu.of_outermost hs ho) hie, fun _ => rfl⟩
          | some o =>
            rw [unhidden_outward hs ho hb hie]
            exact ih o (h.outer hs ho)
    · rw [chain_of_size_le hi]
      exact ⟨fun hu => absurd he (Nat.not_lt.2 (hu.of_size_le hi ▸ hi)), fun _ => rfl⟩

/-! ## Reading -/

/-- What a lookup answers. -/
def read (st : Store) (i : ScopeId) (n : String) (span : Span) : Except Stop Value :=
  ((Action.lookup i n span).perform st).1

theorem read_eq (st : Store) (i : ScopeId) (n : String) (span : Span) :
    st.read i n span =
      match (st.owner? i n).bind (st.binding? · n) with
      | some b => .ok b.value
      | none => .error (.fault (.unbound n span)) := by
  rw [read, Action.perform_lookup]
  cases (st.owner? i n).bind (st.binding? · n) <;> rfl

theorem perform_lookup_eq (st : Store) (i : ScopeId) (n : String) (span : Span) :
    (Action.lookup i n span).perform st = (st.read i n span, st) := by
  rw [read_eq, Action.perform_lookup]
  cases (st.owner? i n).bind (st.binding? · n) <;> rfl

/-- Behind a write the name has the value where it is seen, and every other name, or the same one from
elsewhere, is read as before. -/
structure Written (st st' : Store) (n : String) (v : Value) (Seen : ScopeId → Prop) : Prop where
  seen : ∀ i span, Seen i → st'.read i n span = .ok v
  others : ∀ i m span, ¬ (m = n ∧ Seen i) → st'.read i m span = st.read i m span

theorem Linked.written_update (h : st.Linked) {o : ScopeId} (ho : (st.binding? o n).isSome = true) (v : Value) :
    st.Written (st.modifyScope o (·.update n v)) n v (st.Resolves n · o) := by
  refine ⟨fun i span hr => ?_, fun i m span hm => ?_⟩
  · obtain ⟨b, hb⟩ := Option.isSome_iff_exists.1 ho
    rw [read_eq, owner?_update, h.owner?_eq_some_iff.2 hr, Option.bind_some, binding?_update, if_pos ⟨rfl, rfl⟩, hb]
    rfl
  · rw [read_eq, read_eq, owner?_update]
    cases hj : st.owner? i m with
    | none => rfl
    | some j =>
      have hne : ¬ (j = o ∧ m = n) := by
        rintro ⟨rfl, rfl⟩
        exact hm ⟨rfl, h.owner?_eq_some_iff.1 hj⟩
      rw [Option.bind_some, Option.bind_some, binding?_update, if_neg hne]

theorem Linked.written_bind (h : st.Linked) {e : ScopeId} (he : e < st.scopes.size) (hnew : st.binding? e n = none)
    (b : Binding) : st.Written (st.modifyScope e (·.bind n b)) n b.value (st.Unhidden n · e) := by
  refine ⟨fun i span hu => ?_, fun i m span hm => ?_⟩
  · rw [read_eq, (h.owner?_bind he hnew b i).1 hu, Option.bind_some, binding?_bind_eq st he, if_pos ⟨rfl, rfl⟩]
  · have howner : (st.modifyScope e (·.bind n b)).owner? i m = st.owner? i m := by
      by_cases hmn : m = n
      · subst hmn
        exact (h.owner?_bind he hnew b i).2 fun hu => hm ⟨rfl, hu⟩
      · exact owner?_bind_of_ne st he hmn b i
    rw [read_eq, read_eq, howner]
    cases hj : st.owner? i m with
    | none => rfl
    | some j =>
      have hne : ¬ (j = e ∧ m = n) := by
        rintro ⟨rfl, rfl⟩
        have hb := (h.owner?_eq_some_iff.1 hj).2
        rw [hnew] at hb
        cases hb
      rw [Option.bind_some, Option.bind_some, binding?_bind_eq st he, if_neg hne]

theorem isConstant_update (st : Store) (o : ScopeId) (n : String) (v : Value) (i : ScopeId) (m : String) :
    (st.modifyScope o (·.update n v)).isConstant i m = st.isConstant i m := by
  rw [isConstant, isConstant, scopes_modifyScope]
  by_cases h : i = o
  · rw [if_pos h]
    cases st.scopes[i]? <;> rfl
  · rw [if_neg h]

theorem isConstant_bind_eq {e : ScopeId} (he : e < st.scopes.size) (b : Binding) (i : ScopeId) (m : String) :
    (st.modifyScope e (·.bind n b)).isConstant i m =
      (st.isConstant i m || b.constant && decide (i = e ∧ m = n)) := by
  by_cases hi : i = e
  · subst hi
    simp [isConstant_bind he]
  · rw [isConstant, scopes_modifyScope, if_neg hi, isConstant]
    simp [hi]

/-! ## Writing -/

theorem Linked.resolves_unique (h : st.Linked) {o o' : ScopeId} (ho : st.Resolves n i o) (ho' : st.Resolves n i o') :
    o = o' :=
  Option.some.inj ((h.owner?_eq_some_iff.2 ho).symm.trans (h.owner?_eq_some_iff.2 ho'))

/-- The mark that counts is that of the scope that the name resolves to. -/
theorem Linked.assign_cases (h : st.Linked) (e : ScopeId) (n : String) (v : Value) (span : Span) :
    ((∀ o, ¬ st.Resolves n e o) ∧
        (Action.assign e n v span).perform st = (.error (.fault (.unbound n span)), st)) ∨
      ∃ o, st.Resolves n e o ∧
        (st.isConstant o n = true ∧
            (Action.assign e n v span).perform st = (.error (.fault (.constantReassigned n span)), st) ∨
          st.isConstant o n = false ∧
            (Action.assign e n v span).perform st = (.ok ⟨⟩, st.modifyScope o (·.update n v))) := by
  rw [Action.perform_assign]
  cases ho : st.owner? e n with
  | none =>
    refine .inl ⟨fun o hr => ?_, rfl⟩
    rw [h.owner?_eq_some_iff.2 hr] at ho
    cases ho
  | some o =>
    refine .inr ⟨o, h.owner?_eq_some_iff.1 ho, ?_⟩
    by_cases hc : st.isConstant o n = true
    · exact .inl ⟨hc, if_pos hc⟩
    · exact .inr ⟨Bool.eq_false_iff.2 hc, if_neg hc⟩

theorem declare_cases (st : Store) (e : ScopeId) (n : String) (b : Binding) (span : Span) :
    ((st.binding? e n).isSome = true ∧
        (Action.declare e n b span).perform st = (.error (.fault (.alreadyDeclared n span)), st)) ∨
      st.binding? e n = none ∧
        (Action.declare e n b span).perform st = (.ok ⟨⟩, st.modifyScope e (·.bind n b)) := by
  rw [Action.perform_declare]
  by_cases hb : (st.binding? e n).isSome = true
  · exact .inl ⟨hb, if_pos hb⟩
  · exact .inr ⟨Option.not_isSome_iff_eq_none.1 hb, if_neg hb⟩

end Store

/-- A name is assigned in the scope that it resolves to, if it is no constant there, and declared in a scope that
does not bind it; else the store stays as it is. Behind it the value is read from where the name resolves to
that scope, or would do so, all other reading is as before, and the only new mark is that of a constant that is
declared. -/
theorem Store.Reaches.read_after_write {st : Store} (h : Store.empty.Reaches st) {e : ScopeId}
    (he : e < st.scopes.size) (n : String) (v : Value) (span : Span) :
    (∀ r st', (Action.assign e n v span).perform st = (r, st') →
        (r = .ok ⟨⟩ → ∃ o, st.Resolves n e o ∧ st.isConstant o n = false ∧
            st.Written st' n v (st.Resolves n · o) ∧ ∀ i m, st'.isConstant i m = st.isConstant i m) ∧
          (∀ stop, r = .error stop → st' = st) ∧
          ∀ stop, r = .error stop ↔
            stop = .fault (.unbound n span) ∧ (∀ o, ¬ st.Resolves n e o) ∨
              stop = .fault (.constantReassigned n span) ∧ ∃ o, st.Resolves n e o ∧ st.isConstant o n = true) ∧
      ∀ constant r st', (Action.declare e n ⟨v, constant⟩ span).perform st = (r, st') →
        (r = .ok ⟨⟩ → st.Written st' n v (st.Unhidden n · e) ∧
            ∀ i m, st'.isConstant i m = (st.isConstant i m || constant && decide (i = e ∧ m = n))) ∧
          (∀ stop, r = .error stop → st' = st) ∧
          ∀ stop, r = .error stop ↔
            stop = .fault (.alreadyDeclared n span) ∧ (st.binding? e n).isSome = true := by
  obtain ⟨hst, -⟩ := h.linked .empty
  refine ⟨fun r st' hran => ?_, fun constant r st' hran => ?_⟩
  · rcases hst.assign_cases e n v span with ⟨hnone, hassign⟩ | ⟨o, ho, ⟨hc, hassign⟩ | ⟨hc, hassign⟩⟩ <;>
      cases hassign.symm.trans hran
    · refine ⟨nofun, fun _ _ => rfl, fun stop => ⟨fun hs => ?_, ?_⟩⟩
      · cases hs
        exact .inl ⟨rfl, hnone⟩
      · rintro (⟨rfl, -⟩ | ⟨-, o, ho, -⟩)
        · rfl
        · exact absurd ho (hnone o)
    · refine ⟨nofun, fun _ _ => rfl, fun stop => ⟨fun hs => ?_, ?_⟩⟩
      · cases hs
        exact .inr ⟨rfl, o, ho, hc⟩
      · rintro (⟨-, hnone⟩ | ⟨rfl, -⟩)
        · exact absurd ho (hnone o)
        · rfl
    · refine ⟨fun _ => ⟨o, ho, hc, hst.written_update ho.2 v, isConstant_update st o n v⟩, nofun,
        fun stop => ⟨nofun, ?_⟩⟩
      rintro (⟨-, hnone⟩ | ⟨-, o', ho', hc'⟩)
      · exact absurd ho (hnone o)
      · rw [hst.resolves_unique ho' ho, hc] at hc'
        cases hc'
  · rcases declare_cases st e n ⟨v, constant⟩ span with ⟨hb, hdeclare⟩ | ⟨hb, hdeclare⟩ <;>
      cases hdeclare.symm.trans hran
    · refine ⟨nofun, fun _ _ => rfl, fun stop => ⟨fun hs => ?_, ?_⟩⟩
      · cases hs
        exact ⟨rfl, hb⟩
      · rintro ⟨rfl, -⟩
        rfl
    · refine ⟨fun _ => ⟨hst.written_bind he hb _, isConstant_bind_eq he ⟨v, constant⟩⟩, nofun,
        fun stop => ⟨nofun, ?_⟩⟩
      rintro ⟨-, hb'⟩
      rw [hb] at hb'
      cases hb'

/-- Behind a constant of the same name, and beside a scope that sees only the constant. -/
theorem Store.Reaches.read_after_write_shadowed :
    let after := Operation.after
    let constant := after (after .empty .new) (.declare 0 "x" ⟨.boolean true, true⟩ default)
    let shadowed := after (after constant (.enclose 0)) (.declare 1 "x" ⟨.null, false⟩ default)
    let st := after (after shadowed (.enclose 1)) (.enclose 0)
    let assigned := ((Action.assign 2 "x" (.boolean false) default).perform st).2
    let declared := ((Action.declare 3 "x" ⟨.boolean false, true⟩ default).perform st).2
    Store.empty.Reaches st ∧ st.scopes.size = 4 ∧
      (∀ span, assigned.read 1 "x" span = .ok (.boolean false) ∧ assigned.read 3 "x" span = st.read 3 "x" span ∧
        declared.read 3 "x" span = .ok (.boolean false) ∧ declared.read 1 "x" span = st.read 1 "x" span) ∧
      declared.isConstant 3 "x" = true ∧
      ((Action.assign 3 "x" (.boolean false) default).perform st).2 = st := by
  intro after constant shadowed st assigned declared
  have hnew : Store.empty.Reaches (after .empty .new) := .operation .same trivial nofun
  have hconstant : Store.empty.Reaches constant := .operation hnew ⟨Nat.one_pos, nofun⟩ nofun
  have hshadowed : Store.empty.Reaches shadowed :=
    .operation (.operation hconstant Nat.one_pos nofun) ⟨Nat.one_lt_two, nofun⟩ nofun
  have h : Store.empty.Reaches st :=
    .operation (.operation hshadowed Nat.one_lt_two nofun) (Nat.succ_pos 2) nofun
  obtain ⟨hst, -⟩ := h.linked .empty
  have h1 : st.Resolves "x" 1 1 := hst.owner?_eq_some_iff.1 (by decide +kernel)
  have h2 : st.Resolves "x" 2 1 := hst.owner?_eq_some_iff.1 (by decide +kernel)
  have h3 : st.Resolves "x" 3 0 := hst.owner?_eq_some_iff.1 (by decide +kernel)
  obtain ⟨hassign, -⟩ := h.read_after_write (e := 2) (by decide) "x" (.boolean false) default
  obtain ⟨hfails, hdeclare⟩ := h.read_after_write (e := 3) (by decide) "x" (.boolean false) default
  have hran : ((Action.assign 2 "x" (.boolean false) default).perform st).1 = .ok ⟨⟩ := by
    cases hr : ((Action.assign 2 "x" (.boolean false) default).perform st).1 with
    | ok u => rfl
    | error stop =>
      rcases ((hassign _ _ rfl).2.2 stop).1 hr with ⟨-, hnone⟩ | ⟨-, o, ho, hc⟩
      · exact absurd h2 (hnone 1)
      · rw [hst.resolves_unique ho h2] at hc
        exact absurd hc (by decide +kernel)
  have hfailed : ((Action.assign 3 "x" (.boolean false) default).perform st).1 =
      .error (.fault (.constantReassigned "x" default)) :=
    ((hfails _ _ rfl).2.2 _).2 (.inr ⟨rfl, 0, h3, by decide +kernel⟩)
  have hdeclared : ((Action.declare 3 "x" ⟨.boolean false, true⟩ default).perform st).1 = .ok ⟨⟩ := by
    rw [Action.perform_declare, if_neg (by decide +kernel)]
  obtain ⟨o, ho, -, hw, -⟩ := (hassign (.ok ⟨⟩) assigned (Prod.ext hran rfl)).1 rfl
  rw [hst.resolves_unique ho h2] at hw
  obtain ⟨hw', hmark⟩ := (hdeclare true (.ok ⟨⟩) declared (Prod.ext hdeclared rfl)).1 rfl
  have hx : (st.binding? 1 "x").isSome = true := by decide +kernel
  refine ⟨h, by decide +kernel, fun span => ⟨hw.seen 1 span h1, ?_, hw'.seen 3 span .itself, ?_⟩, ?_, ?_⟩
  · exact hw.others 3 "x" span fun hr => absurd (hst.resolves_unique hr.2 h3) (by decide)
  · exact hw'.others 1 "x" span fun hu => absurd (hu.2.of_isSome hx) (by decide)
  · rw [hmark]
    decide +kernel
  · exact (hfails _ _ rfl).2.1 _ hfailed

end RavenLang
