import Mathlib.Data.List.Induction
import RavenLang.Proofs.Evaluation.Operation
import RavenLang.Proofs.Evaluation.Session

/-!
# Constants

Nothing that is done with scopes changes a constant, removes a binding, makes a
constant of a variable or moves a scope elsewhere.
-/

namespace RavenLang

/-! ## What lasts -/

/-- A binding that may have got another value if it was no constant. -/
def Binding.Lasts (b b' : Binding) : Prop :=
  b'.constant = b.constant ∧ (b.constant = true → b'.value = b.value)

def Scope.Lasts (sc sc' : Scope) : Prop :=
  sc'.outer = sc.outer ∧ ∀ n b, sc.find? n = some b → ∃ b', sc'.find? n = some b' ∧ b.Lasts b'

structure Store.Lasts (st st' : Store) : Prop where
  scope : ∀ (i : ScopeId) (sc : Scope), st.scopes[i]? = some sc →
    ∃ sc' : Scope, st'.scopes[i]? = some sc' ∧ sc.Lasts sc'
  function : ∀ (g : FunctionId) (f : Function), st.functions[g]? = some f → st'.functions[g]? = some f

theorem Binding.Lasts.refl (b : Binding) : b.Lasts b := ⟨rfl, fun _ => rfl⟩

theorem Binding.Lasts.trans {a b c : Binding} (h : a.Lasts b) (h' : b.Lasts c) : a.Lasts c :=
  ⟨h'.1.trans h.1, fun ha => (h'.2 (h.1.trans ha)).trans (h.2 ha)⟩

namespace Scope.Lasts

theorem refl (sc : Scope) : sc.Lasts sc := ⟨rfl, fun _ b h => ⟨b, h, .refl b⟩⟩

theorem trans {sc sc' sc'' : Scope} (h : sc.Lasts sc') (h' : sc'.Lasts sc'') : sc.Lasts sc'' := by
  refine ⟨h'.1.trans h.1, fun n b hb => ?_⟩
  obtain ⟨b', hb', hl⟩ := h.2 n b hb
  obtain ⟨b'', hb'', hl'⟩ := h'.2 n b' hb'
  exact ⟨b'', hb'', hl.trans hl'⟩

theorem bind {sc : Scope} {name : String} (h : sc.find? name = none) (b : Binding) :
    sc.Lasts (sc.bind name b) := by
  refine ⟨rfl, fun n b' hb' => ⟨b', ?_, .refl b'⟩⟩
  rw [find?_bind, if_neg]
  · exact hb'
  · intro h
    subst h
    cases h.symm.trans hb'

theorem update {sc : Scope} {name : String} {b : Binding} (h : sc.find? name = some b)
    (hc : b.constant = false) (value : Value) : sc.Lasts (sc.update name value) := by
  refine ⟨rfl, fun n b' hb' => ?_⟩
  rw [find?_update]
  by_cases hn : n = name
  · subst hn
    cases h.symm.trans hb'
    refine ⟨{ b with value }, ?_, rfl, fun ht => ?_⟩
    · rw [if_pos rfl, h]
      rfl
    · cases hc.symm.trans ht
  · rw [if_neg hn]
    exact ⟨b', hb', .refl b'⟩

end Scope.Lasts

/-! ## Every change lets it last -/

/-- What an assignment does to the store, if anything. The scope looked at for the mark is the one that is
written to. -/
theorem Action.assign_cases (st : Store) (id : ScopeId) (name : String) (value : Value) (span : Span) :
    ((assign id name value span).perform st).2 = st ∨
      ∃ owner b, st.binding? owner name = some b ∧ b.constant = false ∧
        ((assign id name value span).perform st).2 = st.modifyScope owner (·.update name value) := by
  rw [perform_assign]
  cases ho : st.owner? id name with
  | none => exact .inl rfl
  | some owner =>
    have hbound := List.find?_some ho
    obtain ⟨b, hb⟩ := Option.isSome_iff_exists.1 hbound
    simp only [Store.isConstant_of_binding? hb]
    cases hc : b.constant with
    | true => exact .inl rfl
    | false => exact .inr ⟨owner, b, hb, hc, rfl⟩

/-- Only the scope that is changed is another one. -/
theorem Store.scope_modifyScope {st : Store} {id : ScopeId} {change : Scope → Scope}
    (Better : ScopeId → Scope → Scope → Prop) (hsame : ∀ i sc, Better i sc sc)
    (h : ∀ sc, st.scopes[id]? = some sc → Better id sc (change sc)) {i : ScopeId} {sc : Scope}
    (hs : st.scopes[i]? = some sc) :
    ∃ sc', (st.modifyScope id change).scopes[i]? = some sc' ∧ Better i sc sc' := by
  rw [scopes_modifyScope, hs]
  by_cases hi : i = id
  · subst hi
    rw [if_pos rfl]
    exact ⟨change sc, rfl, h sc hs⟩
  · rw [if_neg hi]
    exact ⟨sc, rfl, hsame i sc⟩

namespace Store.Lasts

theorem refl (st : Store) : st.Lasts st := ⟨fun _ sc h => ⟨sc, h, .refl sc⟩, fun _ _ h => h⟩

theorem trans {st st' st'' : Store} (h : st.Lasts st') (h' : st'.Lasts st'') : st.Lasts st'' := by
  refine ⟨fun i sc hs => ?_, fun g f hf => h'.function g f (h.function g f hf)⟩
  obtain ⟨sc', hs', hl⟩ := h.scope i sc hs
  obtain ⟨sc'', hs'', hl'⟩ := h'.scope i sc' hs'
  exact ⟨sc'', hs'', hl.trans hl'⟩

theorem of_grows {st st' : Store} (h : st.Grows st') : st.Lasts st' := by
  refine ⟨fun i sc hs => ?_, h.functions⟩
  exact ⟨sc, h.scopes i sc hs, .refl sc⟩

theorem modifyScope {st : Store} {id : ScopeId} {change : Scope → Scope}
    (h : ∀ sc, st.scopes[id]? = some sc → sc.Lasts (change sc)) : st.Lasts (st.modifyScope id change) :=
  ⟨fun _ _ hs => scope_modifyScope (fun _ => Scope.Lasts) (fun _ => .refl) h hs, fun _ _ hf => hf⟩

theorem declare (st : Store) (id : ScopeId) (name : String) (b : Binding) (span : Span) :
    st.Lasts ((Action.declare id name b span).perform st).2 := by
  rw [Action.perform_declare]
  split
  · exact .refl st
  · next hn =>
    refine modifyScope fun sc hs => .bind ?_ b
    rw [binding?, hs, Option.bind_some] at hn
    exact Option.not_isSome_iff_eq_none.1 hn

theorem assign (st : Store) (id : ScopeId) (name : String) (value : Value) (span : Span) :
    st.Lasts ((Action.assign id name value span).perform st).2 := by
  rcases Action.assign_cases st id name value span with hsame | ⟨owner, b, hb, hc, hchanged⟩
  · rw [hsame]
    exact .refl st
  · rw [hchanged]
    refine modifyScope fun sc hs => ?_
    rw [binding?, hs, Option.bind_some] at hb
    exact .update hb hc value

end Store.Lasts

theorem Host.Quiet.keeps {host : Host} (h : host.Quiet) : Keeps id Store.Lasts host (fun _ _ _ => True) where
  refl := .refl
  trans := .trans
  begins _ _ _ := trivial
  enters _ _ := ⟨_, rfl, .of_grows (.addScope ..), trivial, fun _ _ _ => trivial⟩
  assigns _ _ := ⟨_, rfl, .assign ..⟩
  natives _ _ := ⟨_, rfl, .of_grows (h.native ..)⟩
  declares _ _ _ := ⟨_, rfl, .declare ..⟩
  functions _ := ⟨_, rfl, .of_grows (.addFunction ..)⟩
  binds _ := ⟨_, rfl, .declare ..⟩

theorem Host.Quiet.lasts_after {host : Host} (h : host.Quiet) (d : Nat) (task : Task) (st : Store) :
    st.Lasts (task.after (host.calls d) st) := by
  obtain ⟨_, rfl, hl⟩ : ∃ st', st' = task.after (host.calls d) st ∧ st.Lasts st' := h.keeps.task trivial
  exact hl

theorem Host.Quiet.lasts_during {host : Host} (h : host.Quiet) {d d' : Nat} {task part : Task}
    {st st' : Store} (hd : During host d task st d' part st') :
    st.Lasts st' ∧ (part.after (host.calls d') st').Lasts (task.after (host.calls d) st) := by
  obtain ⟨_, rfl, hl, -, hrest⟩ := h.keeps.during (s := st) trivial hd
  obtain ⟨_, rfl, hl'⟩ := hrest _ (h.lasts_after d' part _) rfl
  exact ⟨hl, hl'⟩

theorem Operation.Plain.lasts {op : Operation} (h : op.Plain) (st : Store) : st.Lasts (op.after st) := by
  cases op with
  | new => exact .of_grows (.addScope st none)
  | populate => exact .of_grows (.addGlobal st)
  | enclose outer => exact .of_grows (.addScope st (some outer))
  | declare id name b span => exact .declare st id name b span
  | assign id name value span => exact .assign st id name value span
  | lookup id name span =>
    rw [after, Action.perform_lookup]
    split <;> exact .refl st
  | addPrimitive => exact h.elim
  | evaluate host depth task => exact Host.Quiet.lasts_after h depth task st

theorem Store.Later.lasts {st st' : Store} (h : st.Later st') : st.Lasts st' := by
  induction h with
  | same => exact .refl st
  | behind _ hop ih => exact ih.trans (hop.lasts _)
  | during _ hq hd ih => exact ih.trans (hq.lasts_during hd).1
  | resumed _ hq hd ih => exact ih.trans (hq.lasts_during hd).2

/-! ## Constants -/

theorem Store.Lasts.binding {st st' : Store} (h : st.Lasts st') {i : ScopeId} {n : String} {b : Binding}
    (hb : st.binding? i n = some b) : ∃ b', st'.binding? i n = some b' ∧ b.Lasts b' := by
  obtain ⟨sc, hs, hn⟩ := Option.bind_eq_some_iff.1 hb
  obtain ⟨sc', hs', -, hl⟩ := h.scope i sc hs
  obtain ⟨b', hb', hl'⟩ := hl n b hn
  exact ⟨b', by rw [binding?, hs', Option.bind_some, hb'], hl'⟩

theorem Store.Lasts.constant {st st' : Store} (h : st.Lasts st') {i : ScopeId} {n : String} {v : Value}
    (hb : st.binding? i n = some ⟨v, true⟩) : st'.binding? i n = some ⟨v, true⟩ := by
  obtain ⟨⟨v', c'⟩, hb', hc, hv⟩ := h.binding hb
  cases hc
  cases hv rfl
  exact hb'

def Stmt.constant? : Stmt → Option String
  | .declare _ constant name _ => if constant then some name else none
  | .function _ name _ _ => some name
  | .expr .. => none

theorem Store.binding?_bind {st : Store} {i : ScopeId} (hi : i < st.scopes.size) (n m : String) (b : Binding) :
    (st.modifyScope i (·.bind n b)).binding? i m =
      if m = n then some ⟨b.value, st.isConstant i n || b.constant⟩ else st.binding? i m := by
  rw [binding?_modifyScope, if_pos rfl, binding?, isConstant, Array.getElem?_eq_getElem hi, Option.map_some,
    Option.bind_some, Option.bind_some, Option.any_some, Scope.find?_bind]

theorem Store.isConstant_bind {st : Store} {i : ScopeId} (hi : i < st.scopes.size) (n m : String) (b : Binding) :
    (st.modifyScope i (·.bind n b)).isConstant i m = (st.isConstant i m || b.constant && decide (m = n)) := by
  rw [isConstant, isConstant, scopes_modifyScope, if_pos rfl, Array.getElem?_eq_getElem hi, Option.map_some,
    Option.any_some, Option.any_some, Scope.isConstant_bind]

theorem Action.binding?_declared {a : Action Value} {i : ScopeId} {n : String} {span : Span} {v : Value}
    {st st' : Store}
    (h : (do let v ← a; Action.declare i n ⟨v, true⟩ span; return v : Action Value).perform st = (.ok v, st'))
    (hi : i < st'.scopes.size) : st'.binding? i n = some ⟨v, true⟩ := by
  obtain ⟨w, st₁, -, h⟩ := perform_bind_eq_ok.1 h
  obtain ⟨u, st₂, hd, h⟩ := perform_bind_eq_ok.1 h
  cases h
  rw [perform_declare] at hd
  split at hd
  · cases hd
  · cases hd
    rw [Store.scopes_size_modifyScope] at hi
    rw [Store.binding?_bind hi, if_pos rfl, Bool.or_true]

theorem Stmt.binding?_eval {calls : Calls} {i : ScopeId} {s : Stmt} {n : String} {v : Value} {st st' : Store}
    (h : (s.eval calls i).perform st = (.ok v, st')) (hn : s.constant? = some n) (hi : i < st'.scopes.size) :
    st'.binding? i n = some ⟨v, true⟩ := by
  cases s with
  | declare span constant name value =>
    cases constant with
    | false => cases hn
    | true =>
      cases hn
      cases value with
      | none => exact Action.binding?_declared h hi
      | some e => exact Action.binding?_declared h hi
  | function span name parameters body =>
    cases hn
    exact Action.binding?_declared h hi
  | expr => cases hn

def Store.globals : List (String × Value) :=
  [("true", .boolean true), ("false", .boolean false), ("null", .null), ("print", .native .print "print"),
    ("time", .native .time "time")]

def Scope.populated : Scope := Store.globals.foldl (fun sc c => sc.bind c.1 ⟨c.2, true⟩) (.fresh none)

theorem Scope.find?_populated : ∀ c ∈ Store.globals, populated.find? c.1 = some ⟨c.2, true⟩ := by
  simp [Store.globals, populated, find?_bind]

theorem Store.scopes_addGlobal (st : Store) : st.addGlobal.2.scopes[st.addGlobal.1]? = some .populated := by
  simp only [addGlobal, addPrimitive, setConstant, scopes_modifyScope, if_pos, addScope,
    Array.getElem?_push, Option.map_some, Scope.populated, globals, List.foldl]

theorem Store.binding?_addGlobal (st : Store) {c : String × Value} (hc : c ∈ globals) :
    st.addGlobal.2.binding? st.addGlobal.1 c.1 = some ⟨c.2, true⟩ := by
  rw [binding?, scopes_addGlobal, Option.bind_some]
  exact Scope.find?_populated c hc

/-! ## Sessions -/

namespace Session

theorem later_store (s : Session) : Store.populated.Later s.store := by
  induction s using List.reverseRecOn with
  | nil => exact .same
  | append_singleton before turn ih =>
    rw [store_append]
    have hplain : (Operation.evaluate turn.host turn.depth turn.task).Plain := Host.plain_quiet turn.now
    exact ih.behind hplain

theorem Reached.later {s : Session} {now : Clock} {d : Nat} {task : Task} {st : Store}
    (h : s.Reached now d task st) :
    Store.populated.Later st := by
  cases h with
  | @turn before turn _ _ _ hd => exact .during (later_store before) (Host.plain_quiet turn.now) hd

theorem Visits.later {s : Session} {st : Store} (h : s.Visits st) : Store.populated.Later st := by
  cases h with
  | start => exact .same
  | during h => exact h.later
  | @behind now d task st h =>
    have hplain : (Operation.evaluate (.plain now) d task).Plain := Host.plain_quiet now
    exact h.later.behind hplain

end Session

/-- Bindings, scopes and functions last, and constants with their values: those that are there,
those that a statement has just declared, those of a scope that was just populated and those
that a session begins with. -/
theorem Store.Later.constants_last {st st' : Store} (h : st.Later st') :
    (∀ i n v, st.binding? i n = some ⟨v, true⟩ → st'.binding? i n = some ⟨v, true⟩) ∧
      (∀ i n b, st.binding? i n = some b → ∃ v, st'.binding? i n = some ⟨v, b.constant⟩) ∧
      (∀ (i : ScopeId) (sc : Scope), st.scopes[i]? = some sc →
        ∃ sc' : Scope, st'.scopes[i]? = some sc' ∧ sc'.outer = sc.outer) ∧
      (∀ (g : FunctionId) (f : Function), st.functions[g]? = some f → st'.functions[g]? = some f) ∧
      (∀ (calls : Calls) (i : ScopeId) (s : Stmt) (before : Store) (v : Value) (n : String),
        (s.eval calls i).perform before = (.ok v, st) → s.constant? = some n → i < st.scopes.size →
          st'.binding? i n = some ⟨v, true⟩) ∧
      (∀ before : Store, st = before.addGlobal.2 →
        ∀ c ∈ globals, st'.binding? before.addGlobal.1 c.1 = some ⟨c.2, true⟩) ∧
      ∀ session : Session, session.Visits st → ∀ c ∈ globals, st'.binding? global c.1 = some ⟨c.2, true⟩ := by
  have hl := h.lasts
  refine ⟨fun i n v hb => hl.constant hb, fun i n b hb => ?_, fun i sc hs => ?_, hl.function, ?_, ?_, ?_⟩
  · obtain ⟨⟨v, _⟩, hb', rfl, -⟩ := hl.binding hb
    exact ⟨v, hb'⟩
  · obtain ⟨sc', hs', ho, -⟩ := hl.scope i sc hs
    exact ⟨sc', hs', ho⟩
  · intro calls i s before v n he hn hi
    exact hl.constant (Stmt.binding?_eval he hn hi)
  · intro before hst c hc
    subst hst
    exact hl.constant (before.binding?_addGlobal hc)
  · intro session hv c hc
    exact hl.constant (hv.later.lasts.constant (empty.binding?_addGlobal hc))

/-- A constant outlives a variable of its name further in, and assignments to it. -/
theorem Store.Later.constants_last_assigned :
    let s : Span := default
    let decl : Stmt := .declare s true "a" (some (.string s "x"))
    let st := (Task.statement 0 decl).after ((Host.plain default).calls 1) Store.empty.addGlobal.2
    let inner := Operation.after (Operation.after st (.enclose 0)) (.declare 1 "a" ⟨.null, false⟩ s)
    let program : Program := [.expr s (.assign s (.name s "a") (.string s "y"))]
    let st' := Operation.after inner (.evaluate (.plain default) 1 (.statements 0 .null program))
    st.Later st' ∧ st.binding? 0 "a" = some ⟨.string "x", true⟩ ∧
      st'.binding? 0 "a" = some ⟨.string "x", true⟩ ∧
      (st'.binding? 1 "a").map (·.constant) = some false := by
  intro s decl st inner program st'
  have h : st.Later st' := .behind (.behind (.behind .same trivial) trivial) (Host.plain_quiet _)
  have ha : st.binding? 0 "a" = some ⟨.string "x", true⟩ := by rfl
  have hb : (st'.binding? 1 "a").map (·.constant) = some false := by decide +kernel
  exact ⟨h, ha, h.constants_last.1 0 "a" _ ha, hb⟩

end RavenLang
