import RavenLang.Evaluation
import RavenLang.Proofs.Syntax.Spans

/-!
# Evaluations of one tree

The same tree, perhaps read from another place, evaluated over two ways to call functions. What relates
single actions and is kept by sequencing relates the two evaluations, too.
-/

namespace RavenLang

/-! ## Places of faults -/

def Fault.mapSpan (place : Span → Span) : Fault → Fault
  | alreadyDeclared name s => alreadyDeclared name (place s)
  | unbound name s => unbound name (place s)
  | constantReassigned name s => constantReassigned name (place s)
  | invalidTarget s => invalidTarget (place s)
  | notCallable value s => notCallable value (place s)
  | notAnObject value s => notAnObject value (place s)
  | invalidKey value s => invalidKey value (place s)
  | unknownOperator operator s => unknownOperator operator (place s)

@[simp] theorem Fault.mapSpan_id (f : Fault) : f.mapSpan id = f := by cases f <;> rfl

/-! ## Congruences -/

/-- A relation of actions that holds between what single nodes do, the second one elsewhere, and that
sequencing keeps. -/
structure Congruence (place : Span → Span) (Rel : {α : Type} → Action α → Action α → Prop) : Prop where
  pure : ∀ {α : Type} (x : α), Rel (pure x) (pure x)
  bind : ∀ {α β : Type} {a b : Action α} {f g : α → Action β},
    Rel a b → (∀ x, Rel (f x) (g x)) → Rel (a >>= f) (b >>= g)
  fault : ∀ {α : Type} (f : Fault), Rel (α := α) (Action.fault f) (Action.fault (f.mapSpan place))
  lookup : ∀ i n s, Rel (Action.lookup i n s) (Action.lookup i n (place s))
  declare : ∀ i n b s, Rel (Action.declare i n b s) (Action.declare i n b (place s))
  assign : ∀ i n v s, Rel (Action.assign i n v s) (Action.assign i n v (place s))
  makeFunction : ∀ n ps body i,
    Rel (Action.makeFunction ⟨n, ps, body, i⟩) (Action.makeFunction ⟨n, ps, Stmt.mapSpansAll place body, i⟩)

structure Calls.Related (place : Span → Span) (Rel : {α : Type} → Action α → Action α → Prop)
    (calls calls' : Calls) : Prop where
  function : ∀ id xs s, Rel (calls.function id xs s) (calls'.function id xs (place s))
  native : ∀ n xs i, Rel (calls.native n xs i) (calls'.native n xs i)

namespace Congruence

variable {place : Span → Span} {Rel : {α : Type} → Action α → Action α → Prop} {calls calls' : Calls} {i : ScopeId}

theorem map {α β : Type} {a b : Action α} (C : Congruence place Rel) (h : Rel a b) (f : α → β) :
    Rel (do return f (← a) : Action β) (do return f (← b)) :=
  C.bind h fun _ => C.pure _

theorem ofExcept {α : Type} (C : Congruence place Rel) (r : Except Fault α) :
    Rel (Action.ofExcept r) (Action.ofExcept (r.mapError (Fault.mapSpan place))) := by
  cases r with
  | ok x => exact C.pure x
  | error f => exact C.fault f

/-! ### Operations on values -/

theorem combine (C : Congruence place Rel) (s : Span) (op : String) (x y : Value) :
    Rel (Action.ofExcept (x.combine op s y)) (Action.ofExcept (x.combine op (place s) y)) := by
  have hmoved : x.combine op (place s) y = (x.combine op s y).mapError (Fault.mapSpan place) := by
    unfold Value.combine
    split
    · split <;> rfl
    · rfl
  rw [hmoved]
  exact C.ofExcept _

theorem key (C : Congruence place Rel) (s : Span) (v : Value) :
    Rel (Action.ofExcept (v.key s)) (Action.ofExcept (v.key (place s))) := by
  have hmoved : v.key (place s) = (v.key s).mapError (Fault.mapSpan place) := by cases v <;> rfl
  rw [hmoved]
  exact C.ofExcept _

theorem field (C : Congruence place Rel) (s : Span) (k : String) (v : Value) :
    Rel (Action.ofExcept (v.field s k)) (Action.ofExcept (v.field (place s) k)) := by
  have hmoved : v.field (place s) k = (v.field s k).mapError (Fault.mapSpan place) := by cases v <;> rfl
  rw [hmoved]
  exact C.ofExcept _

/-! ### Trees -/

theorem bindParameters (C : Congruence place Rel) (s : Span) (ps : List String) (xs : List Value) :
    Rel (Action.bindParameters i s ps xs) (Action.bindParameters i (place s) ps xs) := by
  induction ps generalizing xs with
  | nil => exact C.pure ()
  | cons p ps ih => exact C.bind (C.declare i p _ s) fun _ => ih xs.tail

theorem apply (C : Congruence place Rel) (h : calls.Related place Rel calls') (calleeSpan span : Span)
    (xs : List Value) (v : Value) :
    Rel (v.apply calls i calleeSpan span xs) (v.apply calls' i (place calleeSpan) (place span) xs) := by
  cases v with
  | native n name => exact h.native n xs i
  | function id => exact h.function id xs span
  | _ => exact C.fault (.notCallable _ calleeSpan)

mutual

theorem expr (C : Congruence place Rel) (h : calls.Related place Rel calls') (e : Expr) :
    Rel (e.eval calls i) ((e.mapSpans place).eval calls' i) := by
  match e with
  | .name span n => exact C.lookup i n span
  | .number _ x => exact C.pure _
  | .string _ s => exact C.pure _
  | .object _ es => exact C.map (C.entries h es) _
  | .binary span op l r => exact C.bind (C.expr h l) fun x => C.bind (C.expr h r) fun y => C.combine span op x y
  | .assign span target value =>
    rw [Expr.mapSpans, Expr.eval, Expr.eval, Expr.name?_mapSpans, Expr.span_mapSpans]
    cases target.name? with
    | none => exact C.fault (.invalidTarget target.span)
    | some n => exact C.bind (C.expr h value) fun v => C.bind (C.assign i n v span) fun _ => C.pure v
  | .call span f as =>
    rw [Expr.mapSpans, Expr.eval, Expr.eval, Expr.span_mapSpans]
    exact C.bind (C.exprs h as) fun xs => C.bind (C.expr h f) fun v => C.apply h f.span span xs v
  | .member span computed object property =>
    rw [Expr.mapSpans, Expr.eval, Expr.eval, Expr.name?_mapSpans, Expr.span_mapSpans, Expr.span_mapSpans]
    refine C.bind (C.expr h object) fun v => ?_
    cases if computed then none else property.name? with
    | some n => exact C.bind (C.pure n) fun k => C.field object.span k v
    | none =>
      refine C.bind (C.expr h property) fun x => C.bind (C.key property.span x) fun k => ?_
      exact C.field object.span k v

theorem entry (C : Congruence place Rel) (h : calls.Related place Rel calls') (e : Entry) :
    Rel (e.eval calls i) ((e.mapSpans place).eval calls' i) := by
  match e with
  | .shorthand span k => exact C.map (C.lookup i k span) _
  | .pair _ k v => exact C.map (C.expr h v) _

theorem entries (C : Congruence place Rel) (h : calls.Related place Rel calls') (es : List Entry) :
    Rel (Entry.evalAll calls i es) (Entry.evalAll calls' i (Entry.mapSpansAll place es)) := by
  match es with
  | [] => exact C.pure _
  | e :: es => exact C.bind (C.entry h e) fun _ => C.map (C.entries h es) _

theorem exprs (C : Congruence place Rel) (h : calls.Related place Rel calls') (es : List Expr) :
    Rel (Expr.evalAll calls i es) (Expr.evalAll calls' i (Expr.mapSpansAll place es)) := by
  match es with
  | [] => exact C.pure _
  | e :: es => exact C.bind (C.expr h e) fun _ => C.map (C.exprs h es) _

end

theorem statement (C : Congruence place Rel) (h : calls.Related place Rel calls') (s : Stmt) :
    Rel (s.eval calls i) ((s.mapSpans place).eval calls' i) := by
  have declared (span : Span) (n : String) (b : Binding) (v : Value) :
      Rel (do Action.declare i n b span; return v) (do Action.declare i n b (place span); return v) :=
    C.bind (C.declare i n b span) fun _ => C.pure v
  cases s with
  | declare span constant n value =>
    cases value with
    | none => exact declared span n _ _
    | some e => exact C.bind (C.expr h e) fun v => declared span n _ v
  | function span n ps body => exact C.bind (C.makeFunction n ps body i) fun v => declared span n _ v
  | expr _ e => exact C.expr h e

theorem program (C : Congruence place Rel) (h : calls.Related place Rel calls') (p : Program) (last : Value) :
    Rel (p.evalFrom calls i last) (Program.evalFrom calls' i last (Stmt.mapSpansAll place p)) := by
  induction p generalizing last with
  | nil => exact C.pure last
  | cons s ss ih => exact C.bind (C.statement h s) fun v => ih v

end Congruence

end RavenLang
