import RavenLang.Proofs.Evaluation.Linked

/-!
# Evaluation in a linked store

An evaluation that refers to what is there leaves the store linked at every moment, and gives a value that is
there, or stops at one.
-/

namespace RavenLang

/-! ## Actions -/

/-- Run in `st`, the action leaves the store linked, gives what is good there, and stops at no value that is
not there. -/
structure Action.Links {α : Type} (Good : Store → α → Prop) (st : Store) (a : Action α) : Prop where
  linked : (a.perform st).2.Linked
  smaller : st.Smaller (a.perform st).2
  value : ∀ x, (a.perform st).1 = .ok x → Good (a.perform st).2 x
  fault : ∀ f v, (a.perform st).1 = .error (.fault f) → f.value? = some v → (a.perform st).2.Knows v

namespace Action.Links

variable {α β : Type} {Good : Store → α → Prop} {Better : Store → β → Prop} {st : Store} {a : Action α}
  {i : ScopeId} {n : String} {span : Span}

theorem of_perform {r : Except Stop α} {st' : Store} (ha : a.perform st = (r, st')) (hlinked : st'.Linked)
    (hle : st.Smaller st') (hvalue : ∀ x, r = .ok x → Good st' x)
    (hfault : ∀ f v, r = .error (.fault f) → f.value? = some v → st'.Knows v) : a.Links Good st := by
  constructor <;> rw [ha] <;> assumption

theorem congr {b : Action α} (hb : b.Links Good st) (h : a.perform st = b.perform st) : a.Links Good st :=
  of_perform h hb.linked hb.smaller hb.value hb.fault

theorem of_ok (h : a.Links Good st) {x : α} {st' : Store} (ha : a.perform st = (.ok x, st')) :
    st'.Linked ∧ st.Smaller st' ∧ Good st' x := by
  obtain ⟨hlinked, hle, hvalue, -⟩ := h
  rw [ha] at hlinked hle hvalue
  exact ⟨hlinked, hle, hvalue x rfl⟩

theorem pure (h : st.Linked) {x : α} (hx : Good st x) : (pure x : Action α).Links Good st :=
  of_perform rfl h (.refl st) (fun _ hy => by cases hy; exact hx) fun _ _ hf => by cases hf

theorem fault_of (h : st.Linked) {f : Fault} (hf : ∀ v, f.value? = some v → st.Knows v) :
    (Action.fault f : Action α).Links Good st :=
  of_perform rfl h (.refl st) (fun _ hx => by cases hx) fun _ v hg hv => by cases hg; exact hf v hv

theorem tooDeep (h : st.Linked) : (throw .tooDeep : Action α).Links Good st :=
  of_perform rfl h (.refl st) (fun _ hx => by cases hx) fun _ _ hf => by cases hf

theorem bind {f : α → Action β} (h : a.Links Good st)
    (hf : ∀ x st', st.Smaller st' → st'.Linked → Good st' x → (f x).Links Better st') :
    (a >>= f).Links Better st := by
  obtain ⟨hlinked, hle, hvalue, hfault⟩ := h
  cases hr : a.perform st with
  | mk r mid =>
    rw [hr] at hlinked hle hvalue hfault
    cases r with
    | error e =>
      refine of_perform (by rw [perform_bind, hr]) hlinked hle (fun _ hx => by cases hx) fun g v hg hv => ?_
      cases hg
      exact hfault g v rfl hv
    | ok x =>
      have h := hf x mid hle hlinked (hvalue x rfl)
      refine of_perform (by rw [perform_bind, hr]) h.linked (hle.trans h.smaller) h.value h.fault

theorem map {f : α → β} (h : a.Links Good st) (hf : ∀ x st', Good st' x → Better st' (f x)) :
    (do return f (← a) : Action β).Links Better st :=
  h.bind fun x st' _ hlinked hx => pure hlinked (hf x st' hx)

theorem ofExcept (h : st.Linked) {r : Except Fault α} (hvalue : ∀ x, r = .ok x → Good st x)
    (hfault : ∀ f v, r = .error f → f.value? = some v → st.Knows v) : (Action.ofExcept r).Links Good st := by
  cases r with
  | ok x => exact pure h (hvalue x rfl)
  | error f => exact fault_of h fun v hv => hfault f v rfl hv

theorem changes {x : α} {st' : Store} (ha : a.perform st = (.ok x, st')) (hlinked : st'.Linked) (hle : st.Smaller st')
    (hx : Good st' x) : a.Links Good st :=
  of_perform ha hlinked hle (fun _ hy => by cases hy; exact hx) fun _ _ hf => by cases hf

theorem lookup (h : st.Linked) : (Action.lookup i n span).Links Store.Knows st := by
  cases hb : (st.owner? i n).bind (st.binding? · n) with
  | none =>
    refine (fault_of h (f := .unbound n span) nofun).congr ?_
    rw [perform_lookup, hb, perform_fault]
  | some b =>
    obtain ⟨owner, -, hb'⟩ := Option.bind_eq_some_iff.1 hb
    exact changes (by rw [perform_lookup, hb]) h (.refl st) (h.binding hb')

theorem declare (h : st.Linked) {b : Binding} (hb : st.Knows b.value) :
    (Action.declare i n b span).Links (fun _ _ => True) st := by
  by_cases hbound : (st.binding? i n).isSome
  · refine (fault_of h (f := .alreadyDeclared n span) nofun).congr ?_
    rw [perform_declare, if_pos hbound, perform_fault]
  · exact changes (by rw [perform_declare, if_neg hbound]) (h.bind hb) (.modifyScope ..) trivial

theorem assign (h : st.Linked) {v : Value} (hv : st.Knows v) :
    (Action.assign i n v span).Links (fun _ _ => True) st := by
  cases ho : st.owner? i n with
  | none =>
    refine (fault_of h (f := .unbound n span) nofun).congr ?_
    rw [perform_assign, ho, perform_fault]
  | some owner =>
    by_cases hc : st.isConstant owner n
    · refine (fault_of h (f := .constantReassigned n span) nofun).congr ?_
      rw [perform_assign, ho, perform_fault]
      exact if_pos hc
    · have hrun : (Action.assign i n v span).perform st = (.ok ⟨⟩, st.modifyScope owner (·.update n v)) := by
        rw [perform_assign, ho]
        exact if_neg hc
      exact changes hrun (h.update hv) (.modifyScope ..) trivial

theorem makeFunction (h : st.Linked) {f : Function} (hf : f.scope < st.scopes.size) :
    (Action.makeFunction f).Links Store.Knows st := by
  refine changes (perform_makeFunction ..) (h.addFunction hf) (.addFunction ..) ?_
  rw [Store.knows_function, Store.addFunction, Array.size_push]
  exact Nat.lt_succ_self _

theorem bindParameters (h : st.Linked) (ps : List String) {xs : List Value} (hxs : st.KnowsAll xs) :
    (Action.bindParameters i span ps xs).Links (fun _ _ => True) st := by
  induction ps generalizing xs st with
  | nil => exact pure h trivial
  | cons p ps ih => exact (declare h hxs.head).bind fun _ st' hle h' _ => ih h' (hxs.tail.mono hle)

end Action.Links

/-! ## Evaluation -/

structure Calls.Links (calls : Calls) : Prop where
  function : ∀ {st : Store} {xs : List Value} (id : FunctionId) (span : Span), st.Linked → st.KnowsAll xs →
    (calls.function id xs span).Links Store.Knows st
  native : ∀ {st : Store} {xs : List Value} {i : ScopeId} (n : Native), st.Linked → i < st.scopes.size →
    st.KnowsAll xs → (calls.native n xs i).Links Store.Knows st

namespace Calls.Links

open RavenLang.Action

variable {calls : Calls} {i : ScopeId} {st : Store}

theorem apply (h : calls.Links) (hst : st.Linked) (hi : i < st.scopes.size) {xs : List Value}
    (hxs : st.KnowsAll xs) {v : Value} (hv : st.Knows v) (calleeSpan span : Span) :
    (v.apply calls i calleeSpan span xs).Links Store.Knows st := by
  cases v with
  | native n name => exact h.native n hst hi hxs
  | function id => exact h.function id span hst hxs
  | _ =>
    refine Links.fault_of hst fun w hw => ?_
    cases hw
    exact hv

mutual

theorem expr (h : calls.Links) (e : Expr) {st : Store} (hst : st.Linked) (hi : i < st.scopes.size) :
    (e.eval calls i).Links Store.Knows st := by
  match e with
  | .name .. => exact .lookup hst
  | .number .. => exact .pure hst (Store.knows_number _)
  | .string .. => exact .pure hst (Store.knows_string _)
  | .object _ es =>
    refine (h.entries es hst hi).map fun fields st' hfields => ?_
    exact Store.knows_object.2 fun p hp => hfields p (mem_fieldsOfEntries hp)
  | .binary _ op l r =>
    refine (h.expr l hst hi).bind fun x st₁ hle₁ hst₁ _ => ?_
    refine (h.expr r hst₁ (Nat.lt_of_lt_of_le hi hle₁.scopes)).bind fun y st₂ _ hst₂ _ => ?_
    refine .ofExcept hst₂ (fun v hv => Value.knows_of_combine hv) fun f v hf hv => ?_
    obtain ⟨-, rfl⟩ := Value.combine_eq_error hf
    cases hv
  | .assign span target value =>
    rw [Expr.eval]
    cases target.name? with
    | none => exact .fault_of hst nofun
    | some n =>
      refine (h.expr value hst hi).bind fun v st₁ _ hst₁ hv => ?_
      exact (Links.assign hst₁ hv).bind fun _ st₂ hle₂ hst₂ _ => .pure hst₂ (hv.mono hle₂)
  | .call span f as =>
    refine (h.exprs as hst hi).bind fun xs st₁ hle₁ hst₁ hxs => ?_
    refine (h.expr f hst₁ (Nat.lt_of_lt_of_le hi hle₁.scopes)).bind fun v st₂ hle₂ hst₂ hv => ?_
    exact h.apply hst₂ (Nat.lt_of_lt_of_le hi (hle₁.trans hle₂).scopes) (hxs.mono hle₂) hv f.span span
  | .member _ computed object property =>
    have field {v : Value} {st' : Store} (hst' : st'.Linked) (hv : st'.Knows v) (k : String) :
        (Action.ofExcept (v.field object.span k)).Links Store.Knows st' := by
      refine .ofExcept hst' (fun w hw => Value.knows_of_field hv hw) fun f w hf hw => ?_
      cases Value.field_eq_error hf
      cases hw
      exact hv
    refine (h.expr object hst hi).bind fun v st₁ hle₁ hst₁ hv => ?_
    cases if computed then none else property.name? with
    | some n => exact field hst₁ hv n
    | none =>
      refine (h.expr property hst₁ (Nat.lt_of_lt_of_le hi hle₁.scopes)).bind fun x st₂ hle₂ hst₂ hx => ?_
      have key : (Action.ofExcept (x.key property.span)).Links (fun _ _ => True) st₂ := by
        refine .ofExcept hst₂ (fun _ _ => trivial) fun f w hf hw => ?_
        cases Value.key_eq_error hf
        cases hw
        exact hx
      exact key.bind fun k st₃ hle₃ hst₃ _ => field hst₃ (hv.mono (hle₂.trans hle₃)) k

theorem entry (h : calls.Links) (e : Entry) {st : Store} (hst : st.Linked) (hi : i < st.scopes.size) :
    (e.eval calls i).Links (fun st p => st.Knows p.2) st := by
  match e with
  | .shorthand .. => exact (Links.lookup hst).map fun _ _ hv => hv
  | .pair _ _ v => exact (h.expr v hst hi).map fun _ _ hv => hv

theorem entries (h : calls.Links) (es : List Entry) {st : Store} (hst : st.Linked) (hi : i < st.scopes.size) :
    (Entry.evalAll calls i es).Links (fun st fields => ∀ p ∈ fields, st.Knows p.2) st := by
  match es with
  | [] => exact .pure hst (List.forall_mem_nil _)
  | e :: es =>
    refine (h.entry e hst hi).bind fun p st₁ hle₁ hst₁ hp => ?_
    refine (h.entries es hst₁ (Nat.lt_of_lt_of_le hi hle₁.scopes)).bind fun fields st₂ hle₂ hst₂ hfields => ?_
    exact .pure hst₂ (List.forall_mem_cons.2 ⟨hp.mono hle₂, hfields⟩)

theorem exprs (h : calls.Links) (es : List Expr) {st : Store} (hst : st.Linked) (hi : i < st.scopes.size) :
    (Expr.evalAll calls i es).Links Store.KnowsAll st := by
  match es with
  | [] => exact .pure hst (List.forall_mem_nil _)
  | e :: es =>
    refine (h.expr e hst hi).bind fun v st₁ hle₁ hst₁ hv => ?_
    refine (h.exprs es hst₁ (Nat.lt_of_lt_of_le hi hle₁.scopes)).bind fun vs st₂ hle₂ hst₂ hvs => ?_
    exact .pure hst₂ (List.forall_mem_cons.2 ⟨hv.mono hle₂, hvs⟩)

end

theorem statement (h : calls.Links) (s : Stmt) (hst : st.Linked) (hi : i < st.scopes.size) :
    (s.eval calls i).Links Store.Knows st := by
  have declared {st' : Store} (hst' : st'.Linked) {v : Value} (hv : st'.Knows v) (n : String) (constant : Bool)
      (span : Span) : (do Action.declare i n ⟨v, constant⟩ span; return v : Action Value).Links Store.Knows st' :=
    (Links.declare hst' hv).bind fun _ _ hle hst'' _ => .pure hst'' (hv.mono hle)
  cases s with
  | declare span constant n value =>
    cases value with
    | none => exact declared hst Store.knows_null n constant span
    | some e => exact (h.expr e hst hi).bind fun v _ _ hst' hv => declared hst' hv n constant span
  | function span n ps body =>
    refine (Links.makeFunction (f := ⟨n, ps, body, i⟩) hst hi).bind fun v _ _ hst' hv => ?_
    exact declared hst' hv n true span
  | expr _ e => exact h.expr e hst hi

theorem program (h : calls.Links) (p : Program) (hst : st.Linked) (hi : i < st.scopes.size) {last : Value}
    (hlast : st.Knows last) : (p.evalFrom calls i last).Links Store.Knows st := by
  induction p generalizing last st with
  | nil => exact .pure hst hlast
  | cons s ss ih =>
    exact (h.statement s hst hi).bind fun v _ hle hst' hv => ih hst' (Nat.lt_of_lt_of_le hi hle.scopes) hv

theorem enter (h : calls.Links) (id : FunctionId) (span : Span) (hst : st.Linked) {xs : List Value}
    (hxs : st.KnowsAll xs) : (calls.enter id xs span).Links Store.Knows st := by
  cases hf : st.functions[id]? with
  | none =>
    refine (Links.pure hst Store.knows_null).congr ?_
    rw [Calls.perform_enter, hf, perform_pure]
  | some f =>
    obtain ⟨hst', hle, hi⟩ := hst.enclose hf
    have hbind : (Action.bindParameters st.scopes.size span f.parameters xs).Links (fun _ _ => True) _ :=
      .bindParameters hst' f.parameters (hxs.mono hle)
    have hrun := hbind.bind fun _ _ hle' hst'' _ =>
      h.program f.body hst'' (Nat.lt_of_lt_of_le hi hle'.scopes) Store.knows_null
    refine ⟨?_, ?_, ?_, ?_⟩ <;> rw [Calls.perform_enter, hf]
    · exact hrun.linked
    · exact hle.trans hrun.smaller
    · exact hrun.value
    · exact hrun.fault

end Calls.Links

theorem Host.calls_links {host : Host}
    (h : ∀ {st : Store} {xs : List Value} {i : ScopeId} (n : Native), st.Linked → i < st.scopes.size →
      st.KnowsAll xs → (host.native n xs i).Links Store.Knows st) (d : Nat) : (host.calls d).Links := by
  induction d with
  | zero => exact ⟨fun _ _ hst _ => .tooDeep hst, h⟩
  | succ d ih => exact ⟨fun id span hst hxs => ih.enter id span hst hxs, h⟩

/-! ## Tasks -/

/-- The task refers to scopes and functions that are there. -/
def Task.Refers (st : Store) : Task → Prop
  | .expr i _ | .exprs i _ | .entry i _ | .entries i _ | .statement i _ => i < st.scopes.size
  | .statements i last _ => i < st.scopes.size ∧ st.Knows last
  | .parameters i _ _ xs => i < st.scopes.size ∧ st.KnowsAll xs
  | .call _ xs _ => st.KnowsAll xs

theorem Calls.Links.task {calls : Calls} (h : calls.Links) {st : Store} (hst : st.Linked) {task : Task}
    (ht : task.Refers st) : (task.after calls st).Linked ∧ st.Smaller (task.after calls st) := by
  cases task with
  | expr i e => exact ⟨(h.expr e hst ht).linked, (h.expr e hst ht).smaller⟩
  | exprs i es => exact ⟨(h.exprs es hst ht).linked, (h.exprs es hst ht).smaller⟩
  | entry i e => exact ⟨(h.entry e hst ht).linked, (h.entry e hst ht).smaller⟩
  | entries i es => exact ⟨(h.entries es hst ht).linked, (h.entries es hst ht).smaller⟩
  | statement i s => exact ⟨(h.statement s hst ht).linked, (h.statement s hst ht).smaller⟩
  | statements i last ss => exact ⟨(h.program ss hst ht.1 ht.2).linked, (h.program ss hst ht.1 ht.2).smaller⟩
  | parameters i span ps xs =>
    have hps : (Action.bindParameters i span ps xs).Links (fun _ _ => True) st := .bindParameters hst ps ht.2
    exact ⟨hps.linked, hps.smaller⟩
  | call id xs span => exact ⟨(h.function id span hst ht).linked, (h.function id span hst ht).smaller⟩

theorem Calls.Links.part {calls : Calls} (h : calls.Links) {st st' : Store} (hst : st.Linked) {task part : Task}
    (ht : task.Refers st) (hb : Begins calls task st part st') :
    st'.Linked ∧ st.Smaller st' ∧ part.Refers st' := by
  cases hb with
  | right hx | key hx _ | otherExprs hx =>
    obtain ⟨hst', hle, -⟩ := (h.expr _ hst ht).of_ok hx
    exact ⟨hst', hle, Nat.lt_of_lt_of_le ht hle.scopes⟩
  | callee hxs =>
    obtain ⟨hst', hle, -⟩ := (h.exprs _ hst ht).of_ok hxs
    exact ⟨hst', hle, Nat.lt_of_lt_of_le ht hle.scopes⟩
  | called hxs hv =>
    obtain ⟨hst₁, hle₁, hknown⟩ := (h.exprs _ hst ht).of_ok hxs
    obtain ⟨hst₂, hle₂, -⟩ := (h.expr _ hst₁ (Nat.lt_of_lt_of_le ht hle₁.scopes)).of_ok hv
    exact ⟨hst₂, hle₁.trans hle₂, hknown.mono hle₂⟩
  | otherEntries hx =>
    obtain ⟨hst', hle, -⟩ := (h.entry _ hst ht).of_ok hx
    exact ⟨hst', hle, Nat.lt_of_lt_of_le ht hle.scopes⟩
  | otherStatements hx =>
    obtain ⟨hst', hle, hv⟩ := (h.statement _ hst ht.1).of_ok hx
    exact ⟨hst', hle, Nat.lt_of_lt_of_le ht.1 hle.scopes, hv⟩
  | otherParameters hx =>
    obtain ⟨hst', hle, -⟩ := (Action.Links.declare hst ht.2.head).of_ok hx
    exact ⟨hst', hle, Nat.lt_of_lt_of_le ht.1 hle.scopes, ht.2.tail.mono hle⟩
  | firstStatement => exact ⟨hst, .refl st, ht.1⟩
  | _ => exact ⟨hst, .refl st, ht⟩

theorem During.linked {host : Host} (h : ∀ d, (host.calls d).Links) {d d' : Nat} {task part : Task}
    {st st' : Store} (hd : During host d task st d' part st') (hst : st.Linked) (ht : task.Refers st) :
    st'.Linked ∧ st.Smaller st' ∧ part.Refers st' := by
  induction hd with
  | itself => exact ⟨hst, .refl st, ht⟩
  | @part d' _ _ _ _ _ hb ih =>
    obtain ⟨hst₁, hle₁, ht₁⟩ := ih
    obtain ⟨hst₂, hle₂, ht₂⟩ := (h d').part hst₁ ht₁ hb
    exact ⟨hst₂, hle₁.trans hle₂, ht₂⟩
  | parameters _ hf ih =>
    obtain ⟨hst₁, hle₁, hxs⟩ := ih
    obtain ⟨hst₂, hle₂, hlt⟩ := hst₁.enclose hf
    exact ⟨hst₂, hle₁.trans hle₂, hlt, hxs.mono hle₂⟩
  | body _ hf hps ih =>
    obtain ⟨hst₁, hle₁, hxs⟩ := ih
    obtain ⟨hst₂, hle₂, hlt⟩ := hst₁.enclose hf
    obtain ⟨hst₃, hle₃, -⟩ := (Action.Links.bindParameters hst₂ _ (hxs.mono hle₂)).of_ok hps
    exact ⟨hst₃, hle₁.trans (hle₂.trans hle₃), Nat.lt_of_lt_of_le hlt hle₃.scopes, Store.knows_null⟩

end RavenLang
