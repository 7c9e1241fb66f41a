import Mathlib.Data.List.Find
import RavenLang.Proofs.Evaluation.Constants

/-!
# What evaluations declare

An expression declares nothing in the scopes that were there before it, whatever it calls: the statements
of a function's body declare in the scope of their own call. A statement declares at most its one name,
in the scope that it is evaluated in.
-/

namespace RavenLang

/-- The same names are bound, the same of them as constants, and the scope around is the same. Values of
names that are no constants may differ. -/
structure Scope.SameNames (sc sc' : Scope) : Prop where
  outer : sc'.outer = sc.outer
  find? : ∀ n, Option.Rel Binding.Lasts (sc.find? n) (sc'.find? n)
  constants : ∀ n, sc'.isConstant n = sc.isConstant n

structure Store.SameNames (among : ScopeId → Prop) (st st' : Store) : Prop where
  scope : ∀ (i : ScopeId) (sc : Scope), among i → st.scopes[i]? = some sc →
    ∃ sc' : Scope, st'.scopes[i]? = some sc' ∧ sc.SameNames sc'

/-! ## Scopes -/

namespace Scope.SameNames

theorem refl (sc : Scope) : sc.SameNames sc := by
  refine ⟨rfl, fun n => ?_, fun _ => rfl⟩
  cases sc.find? n with
  | none => exact .none
  | some b => exact .some (.refl b)

theorem trans {sc sc' sc'' : Scope} (h : sc.SameNames sc') (h' : sc'.SameNames sc'') : sc.SameNames sc'' := by
  refine ⟨h'.outer.trans h.outer, fun n => ?_, fun n => (h'.constants n).trans (h.constants n)⟩
  have hn := h.find? n
  have hn' := h'.find? n
  generalize sc.find? n = b, sc'.find? n = b', sc''.find? n = b'' at hn hn'
  cases hn with
  | none => exact hn'
  | some hl =>
    cases hn' with
    | some hl' => exact .some (hl.trans hl')

theorem update {sc : Scope} {name : String} {b : Binding} (h : sc.find? name = some b)
    (hc : b.constant = false) (value : Value) : sc.SameNames (sc.update name value) := by
  refine ⟨rfl, fun n => ?_, fun _ => rfl⟩
  rw [find?_update]
  by_cases hn : n = name
  · subst hn
    rw [if_pos rfl, h]
    exact .some ⟨rfl, fun ht => by cases hc.symm.trans ht⟩
  · rw [if_neg hn]
    exact (refl sc).find? n

end Scope.SameNames

/-! ## Stores -/

namespace Store.SameNames

variable {among : ScopeId → Prop} {st st' st'' : Store}

theorem refl (st : Store) : st.SameNames among st := ⟨fun _ sc _ hs => ⟨sc, hs, .refl sc⟩⟩

theorem trans (h : st.SameNames among st') (h' : st'.SameNames among st'') : st.SameNames among st'' := by
  refine ⟨fun i sc hi hs => ?_⟩
  obtain ⟨sc', hs', hn⟩ := h.scope i sc hi hs
  obtain ⟨sc'', hs'', hn'⟩ := h'.scope i sc' hi hs'
  exact ⟨sc'', hs'', hn.trans hn'⟩

theorem of_grows (h : st.Grows st') : st.SameNames among st' :=
  ⟨fun i sc _ hs => ⟨sc, h.scopes i sc hs, .refl sc⟩⟩

theorem modifyScope {id : ScopeId} {change : Scope → Scope}
    (h : ∀ sc, among id → st.scopes[id]? = some sc → sc.SameNames (change sc)) :
    st.SameNames among (st.modifyScope id change) := by
  refine ⟨fun i sc hi hs => ?_⟩
  obtain ⟨sc', hs', hn⟩ := scope_modifyScope (fun i sc sc' => among i → sc.SameNames sc')
    (fun _ sc _ => .refl sc) (fun sc hs hid => h sc hid hs) hs
  exact ⟨sc', hs', hn hi⟩

theorem assign (st : Store) (id : ScopeId) (name : String) (value : Value) (span : Span) :
    st.SameNames among ((Action.assign id name value span).perform st).2 := by
  rcases Action.assign_cases st id name value span with hsame | ⟨owner, b, hb, hc, hchanged⟩
  · rw [hsame]
    exact refl st
  · rw [hchanged]
    refine modifyScope fun sc _ hs => ?_
    rw [binding?, hs, Option.bind_some] at hb
    exact .update hb hc value

/-- Somewhere else a name may well be new. -/
theorem declare (st : Store) {id : ScopeId} (h : ¬ among id) (name : String) (b : Binding) (span : Span) :
    st.SameNames among ((Action.declare id name b span).perform st).2 := by
  rw [Action.perform_declare]
  split
  · exact refl st
  · exact modifyScope fun _ hid => absurd hid h

theorem lt_size (h : st.SameNames among st') {i : ScopeId} (hi : among i) (hlt : i < st.scopes.size) :
    i < st'.scopes.size := by
  obtain ⟨sc', hs', -⟩ := h.scope i _ hi (Array.getElem?_eq_getElem hlt)
  exact (Array.getElem?_eq_some_iff.1 hs').1

end Store.SameNames

/-! ## Evaluation -/

/-- The statements and parameters of the task are those of a scope that is none of these. -/
def Task.Outside (among : ScopeId → Prop) : Task → Prop
  | .statement i _ | .statements i _ _ | .parameters i _ _ _ => ¬ among i
  | _ => True

theorem Task.Outside.part {among : ScopeId → Prop} {calls : Calls} {task part : Task} {st st' : Store}
    (h : task.Outside among) (hb : Begins calls task st part st') : part.Outside among := by
  cases hb with
  | firstStatement | otherStatements | otherParameters => exact h
  | _ => trivial

theorem Host.Quiet.keeps_names {host : Host} (hq : host.Quiet) (among : ScopeId → Prop) :
    Keeps id (Store.SameNames among) host
      (fun _ task st => task.Outside among ∧ ∀ i, among i → i < st.scopes.size) where
  refl := .refl
  trans := .trans
  begins h hst hb := ⟨h.1.part hb, fun i hi => hst.lt_size hi (h.2 i hi)⟩
  enters {d id xs span st f} h hf := by
    have hnew : ¬ among st.scopes.size := fun hi => Nat.lt_irrefl _ (h.2 _ hi)
    have hgrown : st.SameNames among (st.addScope (some f.scope)).2 := .of_grows (.addScope ..)
    refine ⟨_, rfl, hgrown, ⟨hnew, fun i hi => hgrown.lt_size hi (h.2 i hi)⟩, fun u hu _ => ⟨hnew, fun i hi => ?_⟩⟩
    exact (hgrown.trans hu).lt_size hi (h.2 i hi)
  assigns _ _ := ⟨_, rfl, .assign ..⟩
  natives _ _ := ⟨_, rfl, .of_grows (hq.native ..)⟩
  declares h _ _ := ⟨_, rfl, .declare _ h.1 ..⟩
  functions _ := ⟨_, rfl, .of_grows (.addFunction ..)⟩
  binds h := ⟨_, rfl, .declare _ h.1 ..⟩

theorem Host.Quiet.sameNames_expr {host : Host} (hq : host.Quiet) (d : Nat) (i : ScopeId) (e : Expr) (st : Store) :
    st.SameNames (· < st.scopes.size) ((e.eval (host.calls d) i).perform st).2 := by
  have hholds : (Task.expr i e).Outside (· < st.scopes.size) ∧ ∀ j, j < st.scopes.size → j < st.scopes.size :=
    ⟨trivial, fun _ hj => hj⟩
  obtain ⟨_, rfl, hst⟩ : ∃ st', st' = ((e.eval (host.calls d) i).perform st).2 ∧ _ :=
    (hq.keeps_names (· < st.scopes.size)).task hholds
  exact hst

/-! ## Statements -/

/-- How something may end that declares at most one name, in the scope `i`: without a value it declares
nothing. -/
inductive Store.Declares (st : Store) (i : ScopeId) : Option (String × Bool) → Except Stop Value × Store → Prop
  | stopped {name stop st'} : st.SameNames (· < st.scopes.size) st' → Declares st i name (.error stop, st')
  | nothing {v st'} : st.SameNames (· < st.scopes.size) st' → Declares st i none (.ok v, st')
  | name {n constant v st'} : st.SameNames (· < st.scopes.size) st' → st'.binding? i n = none →
      Declares st i (some (n, constant)) (.ok v, st'.modifyScope i (·.bind n ⟨v, constant⟩))

theorem Store.Declares.value {st : Store} {a : Action Value}
    (ha : st.SameNames (· < st.scopes.size) (a.perform st).2) (i : ScopeId) (n : String) (constant : Bool)
    (span : Span) :
    st.Declares i (some (n, constant))
      ((do let v ← a; Action.declare i n ⟨v, constant⟩ span; return v : Action Value).perform st) := by
  simp only [Action.perform_bind]
  generalize a.perform st = ran at ha
  obtain ⟨stop | v, st'⟩ := ran
  · exact .stopped ha
  · simp only [Action.perform_declare]
    cases hb : st'.binding? i n with
    | some b => exact .stopped ha
    | none => exact .name ha hb

def Stmt.declaration? : Stmt → Option (String × Bool)
  | .declare _ constant name _ => some (name, constant)
  | .function _ name _ _ => some (name, true)
  | .expr .. => none

theorem Host.Quiet.declares_stmt {host : Host} (hq : host.Quiet) (d : Nat) (i : ScopeId) (s : Stmt) (st : Store) :
    st.Declares i s.declaration? ((s.eval (host.calls d) i).perform st) := by
  cases s with
  | declare span constant n value =>
    cases value with
    | none => exact .value (a := pure .null) (.refl st) i n constant span
    | some e => exact .value (hq.sameNames_expr d i e st) i n constant span
  | function span n ps body =>
    refine .value (a := Action.makeFunction ⟨n, ps, body, i⟩) ?_ i n true span
    exact .of_grows (.addFunction ..)
  | expr span e =>
    have hst := hq.sameNames_expr d i e st
    change st.Declares i none ((e.eval (host.calls d) i).perform st)
    generalize (e.eval (host.calls d) i).perform st = ran at hst
    obtain ⟨stop | v, st'⟩ := ran
    · exact .stopped hst
    · exact .nothing hst

/-! ## Names that are seen -/

theorem Store.lt_size_of_mem_chain {st : Store} {i j : ScopeId} (h : j ∈ st.chain i) : j < st.scopes.size := by
  induction i using Nat.strongRecOn with
  | ind i ih =>
    rw [chain] at h
    cases hs : st.scopes[i]? with
    | none =>
      rw [hs] at h
      cases h
    | some sc =>
      have hi := (Array.getElem?_eq_some_iff.1 hs).1
      rw [hs] at h
      simp only at h
      split at h
      · exact List.mem_singleton.1 h ▸ hi
      · next o _ =>
        split at h
        · next hlt =>
          rcases List.mem_cons.1 h with rfl | h
          · exact hi
          · exact ih o hlt h
        · exact List.mem_singleton.1 h ▸ hi

namespace Store.SameNames

variable {st st' : Store} {i : ScopeId} (h : st.SameNames (· < st.scopes.size) st')

include h

theorem binding? (hi : i < st.scopes.size) (n : String) :
    Option.Rel Binding.Lasts (st.binding? i n) (st'.binding? i n) := by
  obtain ⟨sc', hs', hn⟩ := h.scope i _ hi (Array.getElem?_eq_getElem hi)
  rw [Store.binding?, Store.binding?, hs', Array.getElem?_eq_getElem hi]
  exact hn.find? n

theorem isSome_binding? (hi : i < st.scopes.size) (n : String) :
    (st'.binding? i n).isSome = (st.binding? i n).isSome := by
  have hb := h.binding? hi n
  generalize st.binding? i n = b, st'.binding? i n = b' at hb
  cases hb <;> rfl

theorem isConstant_eq (hi : i < st.scopes.size) (n : String) : st'.isConstant i n = st.isConstant i n := by
  obtain ⟨sc', hs', hn⟩ := h.scope i _ hi (Array.getElem?_eq_getElem hi)
  rw [Store.isConstant, Store.isConstant, hs', Array.getElem?_eq_getElem hi]
  exact hn.constants n

theorem chain_eq (hi : i < st.scopes.size) : st'.chain i = st.chain i := by
  induction i using Nat.strongRecOn with
  | ind i ih =>
    obtain ⟨sc', hs', hn⟩ := h.scope i _ hi (Array.getElem?_eq_getElem hi)
    rw [chain, chain, hs', Array.getElem?_eq_getElem hi]
    simp only [hn.outer]
    cases (st.scopes[i]).outer with
    | none => rfl
    | some o =>
      by_cases hlt : o < i
      · simp only [if_pos hlt, ih o hlt (Nat.lt_trans hlt hi)]
      · simp only [if_neg hlt]

/-- The same names are seen from a scope, each in the same scope. -/
theorem owner?_eq (hi : i < st.scopes.size) (n : String) : st'.owner? i n = st.owner? i n := by
  rw [owner?, owner?, h.chain_eq hi]
  exact List.find?_congr fun j hj => h.isSome_binding? (lt_size_of_mem_chain hj) n

end Store.SameNames

theorem Store.SameNames.mono {among among' : ScopeId → Prop} {st st' : Store} (h : st.SameNames among st')
    (hle : ∀ i, among' i → among i) : st.SameNames among' st' :=
  ⟨fun i sc hi hs => h.scope i sc (hle i hi) hs⟩

/-- An expression leaves the names of all scopes that are there, with their constants, and so every name is
seen in the scope that it was seen in. A statement leaves those of all scopes but its own, and there it
declares its one name if it ends with a value, and nothing if it does not. -/
theorem Host.Quiet.declares_only {host : Host} (hq : host.Quiet) (d : Nat) (i : ScopeId) (st : Store) :
    (∀ e : Expr,
      let st' := ((e.eval (host.calls d) i).perform st).2
      st.SameNames (· < st.scopes.size) st' ∧
        ∀ j < st.scopes.size, ∀ n, st'.owner? j n = st.owner? j n) ∧
      ∀ s : Stmt, i < st.scopes.size →
        let ran := (s.eval (host.calls d) i).perform st
        st.SameNames (fun j => j < st.scopes.size ∧ j ≠ i) ran.2 ∧
          ((∃ stop, ran.1 = .error stop) ∨ s.declaration? = none → st.SameNames (· < st.scopes.size) ran.2) ∧
          ∀ v n constant, ran.1 = .ok v → s.declaration? = some (n, constant) →
            st.binding? i n = none ∧ ran.2.binding? i n = some ⟨v, st.isConstant i n || constant⟩ ∧
              (∀ m, ran.2.isConstant i m = (st.isConstant i m || constant && decide (m = n))) ∧
              (st.Marked → st.isConstant i n = false) ∧
              (ran.2.scopes[i]?.map (·.outer) = st.scopes[i]?.map (·.outer)) ∧
              ∀ m, m ≠ n → Option.Rel Binding.Lasts (st.binding? i m) (ran.2.binding? i m) := by
  refine ⟨fun e => ?_, fun s hi => ?_⟩
  · have hst := hq.sameNames_expr d i e st
    exact ⟨hst, fun j hj n => hst.owner?_eq hj n⟩
  · intro ran
    have hran : st.Declares i s.declaration? ran := hq.declares_stmt d i s st
    generalize s.declaration? = name, ran = ran at hran
    cases hran with
    | stopped hst => exact ⟨hst.mono fun _ hj => hj.1, fun _ => hst, fun _ _ _ hv => by cases hv⟩
    | nothing hst => exact ⟨hst.mono fun _ hj => hj.1, fun _ => hst, fun _ _ _ _ hn => by cases hn⟩
    | @name n constant v st' hst hnew =>
      have hothers : st'.SameNames (fun j => j < st.scopes.size ∧ j ≠ i)
          (st'.modifyScope i (·.bind n ⟨v, constant⟩)) := .modifyScope fun _ hj => absurd rfl hj.2
      refine ⟨(hst.mono fun _ hj => hj.1).trans hothers, ?_, ?_⟩
      · rintro (⟨stop, hstop⟩ | hn)
        · cases hstop
        · cases hn
      · intro v' n' constant' hv hn
        cases hv
        cases hn
        have hi' := hst.lt_size hi hi
        have hfree : st.binding? i n = none := by
          have hsame := hst.isSome_binding? hi n
          rw [hnew] at hsame
          exact Option.isNone_iff_eq_none.1 (Option.isSome_eq_false_iff.1 hsame.symm)
        refine ⟨hfree, ?_, fun m => ?_, fun hmarked => hmarked.isConstant_eq_false hfree, ?_, fun m hm => ?_⟩
        · rw [Store.binding?_bind hi', if_pos rfl, hst.isConstant_eq hi]
        · rw [Store.isConstant_bind hi', hst.isConstant_eq hi]
        · obtain ⟨sc', hs', hnames⟩ := hst.scope i _ hi (Array.getElem?_eq_getElem hi)
          rw [Store.scopes_modifyScope, if_pos rfl, hs', Array.getElem?_eq_getElem hi]
          exact congrArg some hnames.outer
        · rw [Store.binding?_bind hi', if_neg hm]
          exact hst.binding? hi m

/-- A function with a variable of its own assigns one outside, called by an expression and by a declaration. -/
theorem Host.Quiet.declares_only_called :
    let s : Span := default
    let calls := (Host.plain default).calls 1
    let body : List Stmt :=
      [.declare s false "y" (some (.name s "p")), .expr s (.assign s (.name s "x") (.name s "y"))]
    let program : Program := [.declare s false "x" none, .function s "f" ["p"] body]
    let st := ((program.eval calls global).perform .populated).2
    let e : Expr := .call s (.name s "f") [.string s "b"]
    let st' := ((e.eval calls global).perform st).2
    let decl : Stmt := .declare s true "z" (some e)
    let ran := (decl.eval calls global).perform st
    (Host.plain default).Quiet ∧ global < st.scopes.size ∧
      st'.scopes.size = 2 ∧ (st'.binding? global "x").map (·.value.text st'.functions) = some "b" ∧
      st.SameNames (· < st.scopes.size) st' ∧ st'.owner? global "y" = st.owner? global "y" ∧
      st.SameNames (fun j => j < st.scopes.size ∧ j ≠ global) ran.2 ∧
      ∃ v, ran.1 = .ok v ∧ st.binding? global "z" = none ∧ ran.2.binding? global "z" = some ⟨v, true⟩ := by
  intro s calls body program st e st' decl ran
  have hq : (Host.plain default).Quiet := Host.plain_quiet _
  have hsize : global < st.scopes.size := by decide +kernel
  obtain ⟨hexpr, hstmt⟩ := hq.declares_only 1 global st
  obtain ⟨hothers, -, hname⟩ := hstmt decl hsize
  obtain ⟨v, hv⟩ : ∃ v, ran.1 = .ok v := by
    have hok : ran.1.toBool = true := by decide +kernel
    cases hr : ran.1 with
    | ok v => exact ⟨v, rfl⟩
    | error stop =>
      rw [hr] at hok
      cases hok
  obtain ⟨hnew, hbound, -⟩ := hname v "z" true hv rfl
  rw [Bool.or_true] at hbound
  refine ⟨hq, hsize, by decide +kernel, by decide +kernel, (hexpr e).1, (hexpr e).2 global hsize "y", hothers, v, hv,
    hnew, hbound⟩

end RavenLang
