import RavenLang.Proofs.Evaluation.Constants
import RavenLang.Proofs.Evaluation.Linked

/-!
# What holds of every value

A property of the values that the language makes itself, which objects get from their fields and hand on to
them, holds of every value that a program gives or binds, if the natives keep to it.
-/

namespace RavenLang

/-- What can be known of a value without looking at a store. -/
structure Value.Pervasive (good : Value → Prop) : Prop where
  null : good .null
  number : ∀ x, good (.number x)
  string : ∀ s, good (.string s)
  function : ∀ id, good (.function id)
  object : ∀ {entries}, (∀ p ∈ entries, good p.2) → good (.object (fieldsOfEntries entries))
  field : ∀ {fields k v}, good (.object fields) → (k, v) ∈ fields → good v

/-- All names are bound to good values. -/
def Store.Binds (st : Store) (good : Value → Prop) : Prop := ∀ i n b, st.binding? i n = some b → good b.value

/-- Where good values only are bound, the action binds good values only and gives what is `fine`. -/
def Action.Yields {α : Type} (good : Value → Prop) (fine : α → Prop) (a : Action α) : Prop :=
  ∀ st : Store, st.Binds good → (a.perform st).2.Binds good ∧ ∀ x, (a.perform st).1 = .ok x → fine x

/-! ## Operations on values -/

namespace Value.Pervasive

variable {good : Value → Prop} (G : Value.Pervasive good)

include G

theorem combine {op : String} {s : Span} {x y v : Value} (h : x.combine op s y = .ok v) : good v := by
  unfold Value.combine at h
  split at h
  · split at h
    · cases h
      exact G.number _
    · cases h
  · cases h
    exact G.null

theorem read {s : Span} {k : String} {x v : Value} (hx : good x) (h : x.field s k = .ok v) : good v := by
  unfold Value.field at h
  split at h
  · next fields =>
    cases h
    cases hl : fields.lookup k with
    | none => exact G.null
    | some w => exact G.field hx (mem_of_lookup_eq_some hl)
  · cases h

theorem headD {xs : List Value} (h : ∀ x ∈ xs, good x) : good (xs.headD .null) := by
  cases xs with
  | nil => exact G.null
  | cons x xs => exact h x List.mem_cons_self

end Value.Pervasive

/-! ## Stores -/

theorem Store.Binds.modifyScope {good : Value → Prop} {st : Store} (h : st.Binds good) {i : ScopeId}
    {change : Scope → Scope}
    (hc : ∀ sc n b, st.scopes[i]? = some sc → (change sc).find? n = some b → good b.value) :
    (st.modifyScope i change).Binds good := by
  intro j n b hb
  rw [binding?_modifyScope] at hb
  split at hb
  · next hj =>
    subst hj
    cases hs : st.scopes[j]? with
    | none => simp [hs] at hb
    | some sc => exact hc sc n b hs (by simpa [hs] using hb)
  · exact h j n b hb

theorem Store.Binds.find? {good : Value → Prop} {st : Store} (h : st.Binds good) {i : ScopeId} {sc : Scope}
    (hs : st.scopes[i]? = some sc) {n : String} {b : Binding} (hb : sc.find? n = some b) : good b.value :=
  h i n b (by rw [binding?, hs, Option.bind_some, hb])

/-! ## Actions -/

namespace Action.Yields

variable {α β : Type} {good : Value → Prop} {fine : α → Prop} {better : β → Prop} {a : Action α} {i : ScopeId}
  {n : String} {s : Span}

theorem pure {x : α} (h : fine x) : Yields good fine (pure x : Action α) := by
  intro st hst
  refine ⟨hst, fun y hy => ?_⟩
  cases hy
  exact h

theorem throw (stop : Stop) : Yields good fine (throw stop : Action α) := by
  intro st hst
  exact ⟨hst, fun y hy => by cases hy⟩

theorem bind {f : α → Action β} (h : a.Yields good fine) (hf : ∀ x, fine x → (f x).Yields good better) :
    (a >>= f).Yields good better := by
  intro st hst
  obtain ⟨hmid, hx⟩ := h st hst
  rw [perform_bind]
  generalize a.perform st = ran at hmid hx
  obtain ⟨r, mid⟩ := ran
  cases r with
  | error stop => exact ⟨hmid, fun y hy => by cases hy⟩
  | ok x => exact hf x (hx x rfl) mid hmid

theorem map {f : α → β} (h : a.Yields good fine) (hf : ∀ x, fine x → better (f x)) :
    (do return f (← a) : Action β).Yields good better :=
  h.bind fun x hx => pure (hf x hx)

theorem ofExcept {r : Except Fault α} (h : ∀ x, r = .ok x → fine x) : (Action.ofExcept r).Yields good fine := by
  cases r with
  | ok x => exact pure (h x rfl)
  | error f => exact throw _

theorem lookup : (Action.lookup i n s).Yields good good := by
  intro st hst
  rw [perform_lookup]
  cases hb : (st.owner? i n).bind (st.binding? · n) with
  | none => exact ⟨hst, fun v hv => by cases hv⟩
  | some b =>
    obtain ⟨owner, -, hb⟩ := Option.bind_eq_some_iff.1 hb
    refine ⟨hst, fun v hv => ?_⟩
    cases hv
    exact hst owner n b hb

theorem declare {b : Binding} (h : good b.value) : (Action.declare i n b s).Yields good fun _ => True := by
  intro st hst
  refine ⟨?_, fun _ _ => trivial⟩
  rw [perform_declare]
  split
  · exact hst
  · refine hst.modifyScope fun sc m c hs hc => ?_
    rw [Scope.find?_bind] at hc
    split at hc
    · cases hc
      exact h
    · exact hst.find? hs hc

theorem assign {v : Value} (h : good v) : (Action.assign i n v s).Yields good fun _ => True := by
  intro st hst
  refine ⟨?_, fun _ _ => trivial⟩
  rw [perform_assign]
  cases st.owner? i n with
  | none => exact hst
  | some owner =>
    simp only
    split
    · exact hst
    · refine hst.modifyScope fun sc m c hs hc => ?_
      rw [Scope.find?_update] at hc
      split at hc
      · obtain ⟨b, -, rfl⟩ := Option.map_eq_some_iff.1 hc
        exact h
      · exact hst.find? hs hc

theorem bindParameters (G : Value.Pervasive good) (ps : List String) {xs : List Value} (h : ∀ x ∈ xs, good x) :
    (Action.bindParameters i s ps xs).Yields good fun _ => True := by
  induction ps generalizing xs with
  | nil => exact pure trivial
  | cons p ps ih =>
    apply bind (declare (G.headD h))
    intro _ _
    exact ih fun x hx => h x (List.mem_of_mem_tail hx)

end Action.Yields

/-! ## Evaluation -/

structure Calls.Yield (calls : Calls) (good : Value → Prop) : Prop where
  function : ∀ id xs s, (∀ x ∈ xs, good x) → (calls.function id xs s).Yields good good
  native : ∀ n xs i, (∀ x ∈ xs, good x) → (calls.native n xs i).Yields good good

namespace Calls.Yield

open RavenLang.Action

variable {good : Value → Prop} {calls : Calls} {i : ScopeId}

theorem apply (h : calls.Yield good) {xs : List Value} (hxs : ∀ x ∈ xs, good x) (v : Value) (s s' : Span) :
    (v.apply calls i s s' xs).Yields good good := by
  cases v with
  | native n name => exact h.native n xs i hxs
  | function id => exact h.function id xs s' hxs
  | _ => exact .throw _

mutual

theorem expr (h : calls.Yield good) (G : Value.Pervasive good) (e : Expr) : (e.eval calls i).Yields good good := by
  match e with
  | .name s n => exact .lookup
  | .number s x => exact .pure (G.number x)
  | .string s t => exact .pure (G.string t)
  | .object s es => exact (h.entries G es).map fun _ hfields => G.object hfields
  | .binary s op l r =>
    apply Yields.bind (h.expr G l)
    intro x _
    apply Yields.bind (h.expr G r)
    intro y _
    exact .ofExcept fun v hv => G.combine hv
  | .assign s target value =>
    unfold Expr.eval
    cases target.name? with
    | none => exact .throw _
    | some n =>
      apply Yields.bind (h.expr G value)
      intro v hv
      exact (Yields.assign hv).bind fun _ _ => .pure hv
  | .call s f as =>
    apply Yields.bind (h.exprs G as)
    intro xs hxs
    apply Yields.bind (h.expr G f)
    intro v _
    exact h.apply hxs v f.span s
  | .member s computed object property =>
    apply Yields.bind (h.expr G object)
    intro target htarget
    -- whatever the key is, the field is that of a good object
    have hfield (k : String) : (Action.ofExcept (target.field object.span k)).Yields good good :=
      .ofExcept fun v hv => G.read htarget hv
    cases if computed then none else property.name? with
    | some n => exact hfield n
    | none =>
      apply Yields.bind (h.expr G property)
      intro x _
      have hkey : (Action.ofExcept (x.key property.span)).Yields good fun _ => True := .ofExcept fun _ _ => trivial
      exact hkey.bind fun k _ => hfield k

theorem entry (h : calls.Yield good) (G : Value.Pervasive good) (e : Entry) :
    (e.eval calls i).Yields good fun p => good p.2 := by
  match e with
  | .shorthand s k => exact Yields.lookup.map fun _ hv => hv
  | .pair s k v => exact (h.expr G v).map fun _ hv => hv

theorem entries (h : calls.Yield good) (G : Value.Pervasive good) (es : List Entry) :
    (Entry.evalAll calls i es).Yields good fun fields => ∀ p ∈ fields, good p.2 := by
  match es with
  | [] => exact .pure (List.forall_mem_nil _)
  | e :: es =>
    apply Yields.bind (h.entry G e)
    intro p hp
    exact (h.entries G es).map fun _ hfields => List.forall_mem_cons.2 ⟨hp, hfields⟩

theorem exprs (h : calls.Yield good) (G : Value.Pervasive good) (es : List Expr) :
    (Expr.evalAll calls i es).Yields good fun vs => ∀ v ∈ vs, good v := by
  match es with
  | [] => exact .pure (List.forall_mem_nil _)
  | e :: es =>
    apply Yields.bind (h.expr G e)
    intro v hv
    exact (h.exprs G es).map fun _ hvs => List.forall_mem_cons.2 ⟨hv, hvs⟩

end

theorem statement (h : calls.Yield good) (G : Value.Pervasive good) (st : Stmt) :
    (st.eval calls i).Yields good good := by
  have hdeclared {v : Value} (hv : good v) (n : String) (constant : Bool) (s : Span) :
      (do Action.declare i n ⟨v, constant⟩ s; return v : Action Value).Yields good good :=
    (Yields.declare hv).bind fun _ _ => .pure hv
  cases st with
  | declare s constant n value =>
    cases value with
    | none => exact hdeclared G.null n constant s
    | some e => exact (h.expr G e).bind fun v hv => hdeclared hv n constant s
  | function s n ps body =>
    have hmade : (Action.makeFunction ⟨n, ps, body, i⟩).Yields good good := by
      intro st hst
      refine ⟨hst, fun v hv => ?_⟩
      cases hv
      exact G.function _
    exact hmade.bind fun v hv => hdeclared hv n true s
  | expr s e => exact h.expr G e

theorem program (h : calls.Yield good) (G : Value.Pervasive good) (p : Program) {last : Value} (hlast : good last) :
    (p.evalFrom calls i last).Yields good good := by
  induction p generalizing last with
  | nil => exact .pure hlast
  | cons s ss ih =>
    apply Yields.bind (h.statement G s)
    intro v hv
    exact ih hv

theorem enter (h : calls.Yield good) (G : Value.Pervasive good) (id : FunctionId) {xs : List Value} (s : Span)
    (hxs : ∀ x ∈ xs, good x) : (calls.enter id xs s).Yields good good := by
  intro st hst
  rw [Calls.perform_enter]
  cases st.functions[id]? with
  | none => exact Yields.pure G.null st hst
  | some f =>
    have hnew : (st.addScope (some f.scope)).2.Binds good := by
      intro j n b hb
      rw [Store.binding?_addScope] at hb
      exact hst j n b hb
    exact (Yields.bindParameters G f.parameters hxs).bind (fun _ _ => h.program G f.body G.null) _ hnew

end Calls.Yield

theorem Host.calls_yield {host : Host} {good : Value → Prop} (G : Value.Pervasive good)
    (h : ∀ n xs i, (∀ x ∈ xs, good x) → (host.native n xs i).Yields good good) (d : Nat) :
    (host.calls d).Yield good := by
  induction d with
  | zero => exact ⟨fun _ _ _ _ => .throw _, h⟩
  | succ d ih => exact ⟨fun id _ s hxs => ih.enter G id s hxs, h⟩

theorem Host.native_yields {host : Host} {good : Value → Prop} (G : Value.Pervasive good)
    (h : ∀ key xs i, (∀ x ∈ xs, good x) → (host.embedded key xs i).Yields good good) (n : Native) {xs : List Value}
    (i : ScopeId) (hxs : ∀ x ∈ xs, good x) : (host.native n xs i).Yields good good := by
  cases n with
  | print =>
    intro st hst
    refine ⟨hst, fun v hv => ?_⟩
    cases hv
    exact G.null
  | time =>
    intro st hst
    refine ⟨hst, fun v hv => ?_⟩
    cases hv
    exact G.number _
  | embedded key => exact h key xs i hxs

/-! ## Sessions -/

theorem Store.binds_populated {good : Value → Prop} (h : ∀ c ∈ globals, good c.2) : populated.Binds good := by
  intro i n b hb
  have hscopes : populated.scopes = #[.populated] := rfl
  have hbindings : Scope.populated.bindings = globals.reverse := rfl
  rw [binding?, hscopes] at hb
  obtain ⟨sc, hs, hb⟩ := Option.bind_eq_some_iff.1 hb
  obtain rfl : sc = .populated := by
    cases i with
    | zero => exact (Option.some.inj hs).symm
    | succ i => cases hs
  obtain ⟨v, hv, rfl⟩ := Option.map_eq_some_iff.1 hb
  rw [hbindings] at hv
  exact h (n, v) (List.mem_reverse.1 (mem_of_lookup_eq_some hv))

theorem Host.plain_calls_yield {good : Value → Prop} (G : Value.Pervasive good) (now : Clock) (d : Nat) :
    ((Host.plain now).calls d).Yield good := by
  apply Host.calls_yield G
  intro n xs i hxs
  exact Host.native_yields G (fun _ _ _ _ => .pure G.null) n i hxs

theorem Session.binds_store {good : Value → Prop} (G : Value.Pervasive good) (h : ∀ c ∈ Store.globals, good c.2)
    (s : Session) : s.store.Binds good := by
  induction s using List.reverseRecOn with
  | nil => exact Store.binds_populated h
  | append_singleton before turn ih =>
    rw [store_append]
    exact ((Host.plain_calls_yield G turn.now turn.depth).program G turn.program G.null _ ih).1

end RavenLang
