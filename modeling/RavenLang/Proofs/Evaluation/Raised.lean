import RavenLang.Proofs.Evaluation.Keeps
import RavenLang.Proofs.Evaluation.Requests
import RavenLang.Proofs.Syntax.Nodes

/-!
# Where faults are raised

Every fault is raised at a node of the program that is evaluated, or at a node in the body of a function
that is called.
-/

namespace RavenLang

/-- The faults that a node raises itself, over whatever values. -/
inductive Node.Raises : Node → Fault → Prop
  | name {s n} : Raises (.expr (.name s n)) (.unbound n s)
  | shorthand {s k} : Raises (.entry (.shorthand s k)) (.unbound k s)
  | target {s t v} : t.name? = none → Raises (.expr (.assign s t v)) (.invalidTarget t.span)
  | assigned {s t v n} : t.name? = some n → Raises (.expr (.assign s t v)) (.unbound n s)
  | reassigned {s t v n} : t.name? = some n → Raises (.expr (.assign s t v)) (.constantReassigned n s)
  | operator {s op l r} : arithmetic? op = none → Raises (.expr (.binary s op l r)) (.unknownOperator op s)
  | callee {s f as value} : value.isCallable = false → Raises (.expr (.call s f as)) (.notCallable value f.span)
  /-- Two parameters of one name. -/
  | parameter {s f as p} : Raises (.expr (.call s f as)) (.alreadyDeclared p s)
  | object {s c o p value} : Raises (.expr (.member s c o p)) (.notAnObject value o.span)
  | key {s c o p value} : (if c then none else p.name?) = none →
      Raises (.expr (.member s c o p)) (.invalidKey value p.span)
  | declared {s c n v} : Raises (.stmt (.declare s c n v)) (.alreadyDeclared n s)
  | function {s n ps body} : Raises (.stmt (.function s n ps body)) (.alreadyDeclared n s)

/-- A fault has the place of the node that raises it, or of a part of that node. -/
theorem Node.Raises.span {n : Node} {f : Fault} (h : n.Raises f) :
    f.span = n.span ∨ ∃ m ∈ n.children, f.span = m.span := by
  cases h with
  | target | callee | object => exact .inr ⟨_, List.mem_cons_self, rfl⟩
  | key => exact .inr ⟨_, List.mem_cons_of_mem _ List.mem_cons_self, rfl⟩
  | _ => exact .inl rfl

/-- With every node there are the nodes below it. -/
def Node.Hereditary (Among : Node → Prop) : Prop := ∀ m n, Among m → n ∈ m.children → Among n

theorem Program.Holds.among {Among : Node → Prop} (hA : Node.Hereditary Among) {p : Program}
    (hp : ∀ s ∈ p, Among (.stmt s)) {n : Node} (h : p.Holds n) : Among n := by
  induction h with
  | stmt hs => exact hp _ hs
  | child _ hn ih => exact hA _ _ ih hn

/-! ## Actions -/

def Store.BodiesAmong (Among : Node → Prop) (st : Store) : Prop :=
  ∀ (id : FunctionId) (f : Function), st.functions[id]? = some f → ∀ s ∈ f.body, Among (.stmt s)

theorem Store.BodiesAmong.addFunction {Among : Node → Prop} {st : Store} (h : st.BodiesAmong Among) {f : Function}
    (hf : ∀ s ∈ f.body, Among (.stmt s)) : (st.addFunction f).2.BodiesAmong Among := by
  intro id g hg
  simp only [Store.addFunction, Array.getElem?_push] at hg
  split at hg
  · cases hg
    exact hf
  · exact h id g hg

/-- If the bodies of functions are made of certain nodes, they still are behind the action, and the
faults of the action are raised at such nodes. -/
def Action.RaisesAmong {α : Type} (Among : Node → Prop) (a : Action α) : Prop :=
  ∀ st, st.BodiesAmong Among →
    (a.perform st).2.BodiesAmong Among ∧
      ∀ f, (a.perform st).1 = .error (.fault f) → ∃ n, Among n ∧ n.Raises f

namespace Action.RaisesAmong

variable {α β : Type} {Among : Node → Prop} {n : Node} {i : ScopeId} {name : String} {span : Span}

theorem pure (x : α) : (pure x : Action α).RaisesAmong Among := fun _ h => ⟨h, nofun⟩

theorem tooDeep : (throw .tooDeep : Action α).RaisesAmong Among := fun _ h => ⟨h, nofun⟩

theorem fault {f : Fault} (hn : Among n) (hf : n.Raises f) : (Action.fault f : Action α).RaisesAmong Among := by
  refine fun st hst => ⟨hst, fun g hg => ?_⟩
  cases hg
  exact ⟨n, hn, hf⟩

theorem bind {a : Action α} {f : α → Action β} (h : a.RaisesAmong Among) (hf : ∀ x, (f x).RaisesAmong Among) :
    (a >>= f).RaisesAmong Among := by
  intro st hst
  obtain ⟨hmid, hfault⟩ := h st hst
  rw [perform_bind]
  cases hr : a.perform st with
  | mk r mid =>
    rw [hr] at hmid hfault
    cases r with
    | error e => exact ⟨hmid, fun g hg => hfault g (by cases hg; rfl)⟩
    | ok x => exact hf x mid hmid

theorem map {a : Action α} (h : a.RaisesAmong Among) (f : α → β) :
    (do return f (← a) : Action β).RaisesAmong Among :=
  h.bind fun _ => pure _

theorem ofExcept {r : Except Fault α} (hn : Among n) (h : ∀ f, r = .error f → n.Raises f) :
    (Action.ofExcept r).RaisesAmong Among := by
  cases r with
  | ok x => exact pure x
  | error f => exact fault hn (h f rfl)

theorem modify {g : Store → Store} (hg : ∀ st, (g st).functions = st.functions) :
    (modify g : Action PUnit).RaisesAmong Among := by
  refine fun st hst => ⟨?_, nofun⟩
  rw [perform_modify, Store.BodiesAmong, hg st]
  exact hst

theorem readClock : Action.readClock.RaisesAmong Among := fun _ hst => ⟨hst, nofun⟩

theorem lookup (hn : Among n) (h : n.Raises (.unbound name span)) :
    (Action.lookup i name span).RaisesAmong Among := by
  intro st hst
  rw [perform_lookup]
  split
  · exact pure _ _ hst
  · exact fault hn h st hst

theorem declare {b : Binding} (hn : Among n) (h : n.Raises (.alreadyDeclared name span)) :
    (Action.declare i name b span).RaisesAmong Among := by
  intro st hst
  rw [perform_declare]
  split
  · exact fault hn h st hst
  · exact pure _ _ hst

theorem assign {v : Value} (hn : Among n) (h : n.Raises (.unbound name span))
    (h' : n.Raises (.constantReassigned name span)) : (Action.assign i name v span).RaisesAmong Among := by
  intro st hst
  rw [perform_assign]
  split
  · exact fault hn h st hst
  · split
    · exact fault hn h' st hst
    · exact pure _ _ hst

theorem makeFunction {f : Function} (h : ∀ s ∈ f.body, Among (.stmt s)) :
    (Action.makeFunction f).RaisesAmong Among :=
  fun _ hst => ⟨hst.addFunction h, nofun⟩

theorem bindParameters (hn : Among n) (h : ∀ p, n.Raises (.alreadyDeclared p span)) (ps : List String)
    (xs : List Value) : (Action.bindParameters i span ps xs).RaisesAmong Among := by
  induction ps generalizing xs with
  | nil => exact pure _
  | cons p ps ih => exact (declare hn (h p)).bind fun _ => ih _

end Action.RaisesAmong

/-! ## Operations on values -/

namespace Value

theorem combine_eq_error {op : String} {span : Span} {x y : Value} {f : Fault}
    (h : x.combine op span y = .error f) : arithmetic? op = none ∧ f = .unknownOperator op span := by
  unfold combine at h
  split at h
  · split at h
    · cases h
    · next hop =>
      cases h
      exact ⟨hop, rfl⟩
  · cases h

theorem key_eq_error {span : Span} {v : Value} {f : Fault} (h : v.key span = .error f) : f = .invalidKey v span := by
  unfold key at h
  split at h <;> cases h
  rfl

theorem field_eq_error {span : Span} {k : String} {v : Value} {f : Fault} (h : v.field span k = .error f) :
    f = .notAnObject v span := by
  unfold field at h
  split at h <;> cases h
  rfl

end Value

/-! ## Evaluation -/

structure Calls.RaiseAmong (Among : Node → Prop) (calls : Calls) : Prop where
  hereditary : Node.Hereditary Among
  function : ∀ id xs {span callee arguments}, Among (.expr (.call span callee arguments)) →
    (calls.function id xs span).RaisesAmong Among
  native : ∀ n xs i, (calls.native n xs i).RaisesAmong Among

namespace Calls.RaiseAmong

open RavenLang.Action

variable {Among : Node → Prop} {calls : Calls} {i : ScopeId}

theorem apply (h : calls.RaiseAmong Among) {span : Span} {callee : Expr} {arguments : List Expr}
    (hn : Among (.expr (.call span callee arguments))) (xs : List Value) (v : Value) :
    (v.apply calls i callee.span span xs).RaisesAmong Among := by
  cases v with
  | native n name => exact h.native n xs i
  | function id => exact h.function id xs hn
  | _ => exact .fault hn (.callee rfl)

mutual

theorem expr (h : calls.RaiseAmong Among) (e : Expr) (he : Among (.expr e)) :
    (e.eval calls i).RaisesAmong Among := by
  have below {n : Node} (hn : n ∈ (Node.expr e).children) : Among n := h.hereditary _ n he hn
  match e with
  | .name .. => exact .lookup he .name
  | .number .. | .string .. => exact .pure _
  | .object _ es => exact (h.entries es fun e he => below (List.mem_map_of_mem he)).map _
  | .binary _ op l r =>
    refine (h.expr l (below List.mem_cons_self)).bind fun x => ?_
    refine (h.expr r (below (List.mem_cons_of_mem _ List.mem_cons_self))).bind fun y => ?_
    refine .ofExcept he fun f hf => ?_
    obtain ⟨hop, rfl⟩ := Value.combine_eq_error hf
    exact .operator hop
  | .assign _ target value =>
    rw [Expr.eval]
    cases ht : target.name? with
    | none => exact .fault he (.target ht)
    | some n =>
      refine (h.expr value (below (List.mem_cons_of_mem _ List.mem_cons_self))).bind fun _ => ?_
      exact (RaisesAmong.assign he (.assigned ht) (.reassigned ht)).map _
  | .call span f as =>
    refine (h.exprs as fun a ha => below (List.mem_cons_of_mem _ (List.mem_map_of_mem ha))).bind fun xs => ?_
    exact (h.expr f (below List.mem_cons_self)).bind fun v => h.apply he xs v
  | .member _ computed object property =>
    have field (v : Value) (k : String) : (Action.ofExcept (v.field object.span k)).RaisesAmong Among := by
      refine .ofExcept he fun f hf => ?_
      rw [Value.field_eq_error hf]
      exact .object
    refine (h.expr object (below List.mem_cons_self)).bind fun v => ?_
    cases hk : if computed then none else property.name? with
    | some n => exact field v n
    | none =>
      have key (x : Value) : (Action.ofExcept (x.key property.span)).RaisesAmong Among := by
        refine .ofExcept he fun f hf => ?_
        rw [Value.key_eq_error hf]
        exact .key hk
      refine (h.expr property (below (List.mem_cons_of_mem _ List.mem_cons_self))).bind fun x => ?_
      exact (key x).bind fun k => field v k

theorem entry (h : calls.RaiseAmong Among) (e : Entry) (he : Among (.entry e)) :
    (e.eval calls i).RaisesAmong Among := by
  match e with
  | .shorthand .. => exact (RaisesAmong.lookup he .shorthand).map _
  | .pair _ _ v => exact (h.expr v (h.hereditary _ _ he List.mem_cons_self)).map _

theorem entries (h : calls.RaiseAmong Among) (es : List Entry) (hes : ∀ e ∈ es, Among (.entry e)) :
    (Entry.evalAll calls i es).RaisesAmong Among := by
  match es with
  | [] => exact .pure _
  | e :: es =>
    obtain ⟨he, hes⟩ := List.forall_mem_cons.1 hes
    exact (h.entry e he).bind fun _ => (h.entries es hes).map _

theorem exprs (h : calls.RaiseAmong Among) (es : List Expr) (hes : ∀ e ∈ es, Among (.expr e)) :
    (Expr.evalAll calls i es).RaisesAmong Among := by
  match es with
  | [] => exact .pure _
  | e :: es =>
    obtain ⟨he, hes⟩ := List.forall_mem_cons.1 hes
    exact (h.expr e he).bind fun _ => (h.exprs es hes).map _

end

theorem statement (h : calls.RaiseAmong Among) (s : Stmt) (hs : Among (.stmt s)) :
    (s.eval calls i).RaisesAmong Among := by
  have below {n : Node} (hn : n ∈ (Node.stmt s).children) : Among n := h.hereditary _ n hs hn
  match s with
  | .declare _ _ _ none => exact (RaisesAmong.declare hs .declared).map _
  | .declare _ _ _ (some e) =>
    exact (h.expr e (below List.mem_cons_self)).bind fun _ => (RaisesAmong.declare hs .declared).map _
  | .function _ n ps body =>
    have hbody : ∀ s ∈ body, Among (.stmt s) := fun s hs => below (List.mem_map_of_mem hs)
    exact (RaisesAmong.makeFunction (f := ⟨n, ps, body, i⟩) hbody).bind fun _ =>
      (RaisesAmong.declare hs .function).map _
  | .expr _ e => exact h.expr e (below List.mem_cons_self)

theorem program (h : calls.RaiseAmong Among) (p : Program) (hp : ∀ s ∈ p, Among (.stmt s)) (last : Value) :
    (p.evalFrom calls i last).RaisesAmong Among := by
  induction p generalizing last with
  | nil => exact .pure _
  | cons s ss ih =>
    obtain ⟨hs, hss⟩ := List.forall_mem_cons.1 hp
    exact (h.statement s hs).bind fun v => ih hss v

theorem enter (h : calls.RaiseAmong Among) (id : FunctionId) (xs : List Value) {span : Span} {callee : Expr}
    {arguments : List Expr} (hn : Among (.expr (.call span callee arguments))) :
    (calls.enter id xs span).RaisesAmong Among := by
  intro st hst
  rw [Calls.perform_enter]
  cases hf : st.functions[id]? with
  | none => exact RaisesAmong.pure _ _ hst
  | some f =>
    refine (RaisesAmong.bindParameters hn (fun _ => .parameter) f.parameters xs).bind (fun _ => ?_) _ hst
    exact h.program f.body (hst id f hf) .null

theorem plain (hA : Node.Hereditary Among) (now : Clock) (d : Nat) : ((Host.plain now).calls d).RaiseAmong Among := by
  have native (n : Native) (xs : List Value) (i : ScopeId) : ((Host.plain now).native n xs i).RaisesAmong Among := by
    cases n with
    | print =>
      rw [Host.native]
      exact .bind (.modify fun _ => rfl) fun _ => .pure _
    | time =>
      rw [Host.native]
      exact .bind .readClock fun _ => .pure _
    | embedded key => exact .pure _
  induction d with
  | zero => exact ⟨hA, fun _ _ _ _ _ _ => .tooDeep, native⟩
  | succ d ih => exact ⟨hA, fun id xs _ _ _ hn => ih.enter id xs hn, native⟩

end Calls.RaiseAmong

/-! ## Requests -/

namespace Request

variable {r : Request} {scope : ScopeId} {st : Store}

theorem ofSource_of_notAProgram {fault : SyntaxFault}
    (h : (r.answer scope st).outcome = .error (.notAProgram fault)) : Program.ofSource r.source = .error fault := by
  rw [answer, run] at h
  cases hp : Program.ofSource r.source with
  | error f =>
    rw [hp] at h
    cases h
    rfl
  | ok p =>
    rw [hp] at h
    change ((p.eval _ scope).perform st.unprinted).1.mapError Failure.ofStop = _ at h
    revert h
    rcases ((p.eval _ scope).perform st.unprinted).1 with (_ | _) | _ <;> (intro h; cases h)

theorem eval_of_stopped {p : Program} (hp : Program.ofSource r.source = .ok p) {f : Fault}
    (h : (r.answer scope st).outcome = .error (.stopped f)) :
    ((p.eval ((Host.plain r.now).calls r.depth) scope).perform st.unprinted).1 = .error (.fault f) := by
  rw [answer, run, hp] at h
  change ((p.eval _ scope).perform st.unprinted).1.mapError Failure.ofStop = _ at h
  revert h
  rcases ((p.eval _ scope).perform st.unprinted).1 with (_ | _) | _ <;> intro h <;> cases h
  rfl

/-- A request keeps the bodies of functions among certain nodes if its own program is, and stops at one
of them. -/
theorem answer_raisesAmong {Among : Node → Prop} (hA : Node.Hereditary Among)
    (hr : ∀ p, Program.ofSource r.source = .ok p → ∀ s ∈ p, Among (.stmt s)) (hst : st.BodiesAmong Among) :
    (r.answer scope st).store.BodiesAmong Among ∧
      ∀ f, (r.answer scope st).outcome = .error (.stopped f) → ∃ n, Among n ∧ n.Raises f := by
  cases hp : Program.ofSource r.source with
  | error fault =>
    rw [answer, run, hp]
    exact ⟨hst, fun f hf => by cases hf⟩
  | ok p =>
    have hunprinted : st.unprinted.BodiesAmong Among := hst
    obtain ⟨hbodies, hfault⟩ :=
      (Calls.RaiseAmong.plain hA r.now r.depth).program (i := scope) p (hr p hp) .null _ hunprinted
    refine ⟨?_, fun f hf => hfault f (eval_of_stopped hp hf)⟩
    rw [answer, run, hp]
    exact hbodies

end Request

end RavenLang
