import RavenLang.Proofs.Evaluation.Constants
import RavenLang.Proofs.Evaluation.Places
import RavenLang.Proofs.Grammar.Shapes

/-!
# Names that are bound

Programs that were read bind names of letters only, and so do the functions that they leave behind.
-/

namespace RavenLang

/-! ## Stores -/

/-- All bound names, and those that the functions will bind, are names that can be read. -/
structure Store.Named (st : Store) : Prop where
  bound : ∀ {i : ScopeId} {sc : Scope}, st.scopes[i]? = some sc → ∀ n ∈ sc.names, IsName n
  parameters : ∀ {g : FunctionId} {f : Function}, st.functions[g]? = some f → ∀ p ∈ f.parameters, IsName p
  body : ∀ {g : FunctionId} {f : Function}, st.functions[g]? = some f →
    Program.WellFormed Number.IsMagnitude f.body

namespace Store.Named

variable {st : Store}

theorem modifyScope (h : st.Named) {i : ScopeId} {change : Scope → Scope}
    (hc : ∀ sc, st.scopes[i]? = some sc → ∀ n ∈ (change sc).names, IsName n) :
    (st.modifyScope i change).Named := by
  refine ⟨fun {j sc} hs => ?_, h.parameters, h.body⟩
  rw [scopes_modifyScope] at hs
  split at hs
  · next hj =>
    subst hj
    obtain ⟨sc', hs', rfl⟩ := Option.map_eq_some_iff.1 hs
    exact hc sc' hs'
  · exact h.bound hs

theorem declare (h : st.Named) {name : String} (hn : IsName name) (i : ScopeId) (b : Binding) (span : Span) :
    ((Action.declare i name b span).perform st).2.Named := by
  rw [Action.perform_declare]
  split
  · exact h
  · refine h.modifyScope fun sc hs n hmem => ?_
    rcases Scope.mem_names_bind.1 hmem with rfl | hmem
    · exact hn
    · exact h.bound hs n hmem

theorem assign (h : st.Named) (i : ScopeId) (name : String) (value : Value) (span : Span) :
    ((Action.assign i name value span).perform st).2.Named := by
  rcases Action.assign_cases st i name value span with hsame | ⟨owner, b, -, -, hchanged⟩
  · rw [hsame]
    exact h
  · rw [hchanged]
    refine h.modifyScope fun sc hs => ?_
    rw [Scope.names_update]
    exact h.bound hs

theorem addScope (h : st.Named) (outer : Option ScopeId) : (st.addScope outer).2.Named := by
  refine ⟨fun {i sc} hs => ?_, h.parameters, h.body⟩
  simp only [Store.addScope, Array.getElem?_push] at hs
  split at hs
  · cases hs
    exact fun _ hn => absurd hn List.not_mem_nil
  · exact h.bound hs

theorem addFunction (h : st.Named) {f : Function} (hps : ∀ p ∈ f.parameters, IsName p)
    (hbody : Program.WellFormed Number.IsMagnitude f.body) : (st.addFunction f).2.Named := by
  have function {g : FunctionId} {f' : Function} (hf : (st.addFunction f).2.functions[g]? = some f') :
      f' = f ∨ st.functions[g]? = some f' := by
    simp only [Store.addFunction, Array.getElem?_push] at hf
    split at hf
    · exact .inl (Option.some.inj hf).symm
    · exact .inr hf
  refine ⟨h.bound, fun hf => ?_, fun hf => ?_⟩
  · rcases function hf with rfl | hf
    · exact hps
    · exact h.parameters hf
  · rcases function hf with rfl | hf
    · exact hbody
    · exact h.body hf

theorem native (h : st.Named) (now : Clock) (n : Native) (xs : List Value) (i : ScopeId) :
    (((Host.plain now).native n xs i).perform st).2.Named := by
  cases n with
  | print | time => exact ⟨h.bound, h.parameters, h.body⟩
  | embedded => exact h

end Store.Named

/-! ## Visible names -/

namespace Store

variable {st : Store} {i : ScopeId} {n : String}

theorem mem_visibleNames :
    n ∈ st.visibleNames i ↔ ∃ j ∈ st.chain i, ∃ sc : Scope, st.scopes[j]? = some sc ∧ n ∈ sc.names := by
  rw [visibleNames, List.mem_flatMap]
  refine exists_congr fun j => and_congr_right fun _ => ?_
  cases st.scopes[j]? <;> simp

/-- The names that are collected along the scopes are those that are found in one of them. -/
theorem isSome_owner?_iff : (st.owner? i n).isSome = true ↔ n ∈ st.visibleNames i := by
  rw [owner?, List.find?_isSome, mem_visibleNames]
  refine exists_congr fun j => and_congr_right fun _ => ?_
  rw [binding?]
  cases st.scopes[j]? <;> simp [Scope.mem_names]

theorem Named.visible (h : st.Named) (hn : n ∈ st.visibleNames i) : IsName n := by
  obtain ⟨j, -, sc, hs, hn⟩ := mem_visibleNames.1 hn
  exact h.bound hs n hn

end Store

theorem Action.lookup_ok_iff {st : Store} {i : ScopeId} {n : String} {span : Span} :
    (∃ v, ((lookup i n span).perform st).1 = .ok v) ↔ n ∈ st.visibleNames i := by
  rw [← Store.isSome_owner?_iff, perform_lookup]
  cases ho : st.owner? i n with
  | none => simp
  | some owner =>
    have hbound := List.find?_some ho
    obtain ⟨b, hb⟩ := Option.isSome_iff_exists.1 hbound
    simp [hb]

/-! ## Evaluation -/

/-- The names that a task binds itself are names that can be read. -/
def Task.Named : Task → Prop
  | .statement _ s => s.WellFormed Number.IsMagnitude
  | .statements _ _ ss => Program.WellFormed Number.IsMagnitude ss
  | .parameters _ _ ps _ => ∀ p ∈ ps, IsName p
  | _ => True

theorem Task.Named.part {calls : Calls} {task part : Task} {st st' : Store} (h : task.Named)
    (hb : Begins calls task st part st') : part.Named := by
  cases hb with
  | firstStatement => exact h _ List.mem_cons_self
  | otherStatements => exact fun s hs => h s (List.mem_cons_of_mem _ hs)
  | otherParameters => exact fun p hp => h p (List.mem_cons_of_mem _ hp)
  | _ => trivial

theorem Stmt.WellFormed.isName {number : Float → Prop} {s : Stmt} (h : s.WellFormed number) {n : String}
    (hn : s.declared? = some n) : IsName n := by
  cases h <;> cases hn <;> assumption

theorem keeps_named (now : Clock) :
    Keeps id (fun st st' : Store => st.Named → st'.Named) (.plain now)
      (fun _ task st => st.Named ∧ task.Named) where
  refl _ := id
  trans h h' := h' ∘ h
  begins h hst hb := ⟨hst h.1, h.2.part hb⟩
  enters {d id xs span st f} h hf := by
    have hps := h.1.parameters hf
    have hbody := h.1.body hf
    have hnew := h.1.addScope (some f.scope)
    exact ⟨_, rfl, fun _ => hnew, ⟨hnew, hps⟩, fun u hu _ => ⟨hu hnew, hbody⟩⟩
  assigns _ _ := ⟨_, rfl, fun h => h.assign ..⟩
  natives _ _ := ⟨_, rfl, fun h => h.native ..⟩
  declares h hn _ := ⟨_, rfl, fun hst => hst.declare (h.2.isName hn) ..⟩
  functions h := by
    cases h.2 with
    | function _ hps hbody => exact ⟨_, rfl, fun hst => hst.addFunction hps hbody⟩
  binds h := ⟨_, rfl, fun hst => hst.declare (h.2 _ List.mem_cons_self) ..⟩

/-! ## Requests -/

theorem Store.named_populated : Store.populated.Named := by
  have hscopes : Store.populated.scopes = #[.populated] := rfl
  have hfunctions : Store.populated.functions = #[] := rfl
  refine ⟨fun {i sc} hs => ?_, fun hf => ?_, fun hf => ?_⟩
  · rw [hscopes] at hs
    obtain rfl : sc = .populated := by
      cases i with
      | zero => exact (Option.some.inj hs).symm
      | succ i => cases hs
    decide
  · rw [hfunctions] at hf
    cases hf
  · rw [hfunctions] at hf
    cases hf

namespace Request

theorem answer_named {st : Store} (h : st.Named) (r : Request) (scope : ScopeId) :
    (r.answer scope st).store.Named := by
  have hunprinted : st.unprinted.Named := ⟨h.bound, h.parameters, h.body⟩
  rw [answer, run]
  cases hp : Program.ofSource r.source with
  | error fault => exact hunprinted
  | ok p =>
    have htask : st.unprinted.Named ∧ (Task.statements scope .null p).Named :=
      ⟨hunprinted, Program.ofSource_wellFormed hp⟩
    obtain ⟨_, rfl, hst⟩ : ∃ st',
        st' = ((p.eval ((Host.plain r.now).calls r.depth) scope).perform st.unprinted).2 ∧ _ :=
      (keeps_named r.now).task htask
    exact hst hunprinted

theorem storeBehind_named (rs : List Request) : (storeBehind rs).Named := by
  induction rs using List.reverseRecOn with
  | nil => exact Store.named_populated
  | append_singleton rs r ih =>
    rw [storeBehind, List.foldl_append]
    exact answer_named ih r global

end Request

end RavenLang
