import RavenLang.Proofs.Evaluation.Alike
import RavenLang.Proofs.Evaluation.Growth
import RavenLang.Proofs.Evaluation.Keeps

/-!
# Evaluations side by side

The same tree evaluated in two stores, in scopes that stand for each other, goes the same way in
both, also if it was read from another place. What stands for nothing is left alone.
-/

namespace RavenLang

/-! ## Two stores -/

/-- The clock shows the same from both stores on. -/
def Clock.Agrees (now : Clock) (st st' : Store) : Prop := ∀ n, now (st.readings + n) = now (st'.readings + n)

theorem Clock.Agrees.readClock {now : Clock} {st st' : Store} (h : now.Agrees st st') :
    now.Agrees st.readClock.2 st'.readClock.2 := by
  intro n
  have hn := h (1 + n)
  rwa [← Nat.add_assoc, ← Nat.add_assoc] at hn

structure Twins (place : Span → Span) (now : Clock) where
  left : Store
  right : Store
  pairing : Pairing
  holds : pairing.Holds place left right
  agrees : now.Agrees left right

namespace Twins

variable {place : Span → Span} {now : Clock} {T U : Twins place now}

/-- From one moment to a later one: pairs stay, new pairs are of new scopes, and what stands for
nothing on the right is left alone. -/
structure Onward (T U : Twins place now) : Prop where
  pairing : T.pairing.Within U.pairing
  fresh : ∀ {i i'}, U.pairing.scope i i' → T.pairing.scope i i' ∨ T.right.scopes.size ≤ i'
  others : ∀ {i' : ScopeId} {sc : Scope}, (∀ i, ¬ T.pairing.scope i i') → T.right.scopes[i']? = some sc →
    U.right.scopes[i']? = some sc
  functions : ∀ {g : FunctionId} {f : Function}, T.right.functions[g]? = some f →
    U.right.functions[g]? = some f
  size : T.right.scopes.size ≤ U.right.scopes.size
  printed : ∃ text, U.left.printed = T.left.printed ++ text ∧ U.right.printed = T.right.printed ++ text

namespace Onward

theorem refl (T : Twins place now) : T.Onward T :=
  ⟨.refl _, .inl, fun _ h => h, id, Nat.le_refl _, "", by simp⟩

theorem trans {V : Twins place now} (h : T.Onward U) (h' : U.Onward V) : T.Onward V where
  pairing := h.pairing.trans h'.pairing
  fresh hp := by
    rcases h'.fresh hp with hp | hle
    · exact h.fresh hp
    · exact .inr (Nat.le_trans h.size hle)
  others {i' sc} hn hs := by
    refine h'.others (fun i hp => ?_) (h.others hn hs)
    rcases h.fresh hp with hp | hle
    · exact hn i hp
    · exact absurd (Array.getElem?_eq_some_iff.1 hs).1 (Nat.not_lt_of_le hle)
  functions hg := h'.functions (h.functions hg)
  size := Nat.le_trans h.size h'.size
  printed := by
    obtain ⟨text, hl, hr⟩ := h.printed
    obtain ⟨text', hl', hr'⟩ := h'.printed
    exact ⟨text ++ text', by rw [hl', hl, String.append_assoc], by rw [hr', hr, String.append_assoc]⟩

end Onward

/-- Both actions go the same way. -/
def Match {α : Type} (T : Twins place now) (A : Pairing → α → α → Prop) (a a' : Action α) : Prop :=
  ∃ U : Twins place now, U.left = (a.perform T.left).2 ∧ U.right = (a'.perform T.right).2 ∧ T.Onward U ∧
    EndedAlike place U.pairing A (a.perform T.left).1 (a'.perform T.right).1

namespace Match

variable {α β : Type} {A : Pairing → α → α → Prop} {B : Pairing → β → β → Prop} {a a' : Action α}
  {f f' : α → Action β}

theorem idle {r r' : Except Stop α} (ha : a.perform T.left = (r, T.left))
    (ha' : a'.perform T.right = (r', T.right)) (h : EndedAlike place T.pairing A r r') : T.Match A a a' :=
  ⟨T, by rw [ha], by rw [ha'], .refl T, by rwa [ha, ha']⟩

theorem congr {b b' : Action α} (ha : a.perform T.left = b.perform T.left)
    (ha' : a'.perform T.right = b'.perform T.right) (h : T.Match A b b') : T.Match A a a' := by
  rw [Match, ha, ha']
  exact h

theorem pure {x x' : α} (h : A T.pairing x x') : T.Match A (pure x) (pure x') := idle rfl rfl (.ok h)

theorem bind (h : T.Match A a a')
    (hf : ∀ (U : Twins place now) x x', T.Onward U → A U.pairing x x' → U.Match B (f x) (f' x')) :
    T.Match B (a >>= f) (a' >>= f') := by
  obtain ⟨U, hl, hr, hTU, he⟩ := h
  simp only [Match, Action.perform_bind]
  generalize a.perform T.left = p at hl he ⊢
  generalize a'.perform T.right = p' at hr he ⊢
  obtain ⟨r, st⟩ := p
  obtain ⟨r', st'⟩ := p'
  obtain rfl : U.left = st := hl
  obtain rfl : U.right = st' := hr
  cases he with
  | ok hx =>
    obtain ⟨V, hl, hr, hUV, he⟩ := hf U _ _ hTU hx
    exact ⟨V, hl, hr, hTU.trans hUV, he⟩
  | fault hf => exact ⟨U, rfl, rfl, hTU, .fault hf⟩
  | tooDeep => exact ⟨U, rfl, rfl, hTU, .tooDeep⟩

theorem fault {e e' : Fault} (h : e.Alike place T.pairing e') :
    T.Match A (Action.fault e) (Action.fault e') :=
  idle rfl rfl (.fault h)

theorem ofExcept {r r' : Except Fault α}
    (h : EndedAlike place T.pairing A (Value.Alike.toStop r) (Value.Alike.toStop r')) :
    T.Match A (Action.ofExcept r) (Action.ofExcept r') := by
  cases r with
  | ok x =>
    cases r' with
    | ok x' => exact idle rfl rfl h
    | error e' => cases h
  | error e =>
    cases r' with
    | ok x' => cases h
    | error e' => exact idle rfl rfl h

/-! ### Changes of the store -/

section
variable {i i' : ScopeId}

theorem lookup (hi : T.pairing.scope i i') (n : String) (span : Span) :
    T.Match Value.Alike (Action.lookup i n span) (Action.lookup i' n (place span)) := by
  have ho := T.holds.owner? hi n
  generalize hl : T.left.owner? i n = o, hr : T.right.owner? i' n = o' at ho
  cases ho with
  | none =>
    refine idle ?_ ?_ (.fault (.unbound n span)) <;> rw [Action.perform_lookup]
    · rw [hl]; rfl
    · rw [hr]; rfl
  | @some o o' hw =>
    have hb := T.holds.binding? hw n
    generalize hlb : T.left.binding? o n = b, hrb : T.right.binding? o' n = b' at hb
    cases hb with
    | none =>
      refine idle ?_ ?_ (.fault (.unbound n span)) <;> rw [Action.perform_lookup]
      · rw [hl, Option.bind_some, hlb]
      · rw [hr, Option.bind_some, hrb]
    | @some b b' hb =>
      refine idle ?_ ?_ (.ok hb.value) <;> rw [Action.perform_lookup]
      · rw [hl, Option.bind_some, hlb]
      · rw [hr, Option.bind_some, hrb]

theorem modifies {a a' : Action Unit} {change change' : Scope → Scope} (hi : T.pairing.scope i i')
    (hc : ∀ sc sc', sc.Alike T.pairing i i' sc' → (change sc).Alike T.pairing i i' (change' sc'))
    (ha : a.perform T.left = (.ok (), T.left.modifyScope i change))
    (ha' : a'.perform T.right = (.ok (), T.right.modifyScope i' change')) :
    T.Match (fun _ _ _ => True) a a' := by
  refine ⟨⟨_, _, T.pairing, T.holds.modifyScope hi hc, T.agrees⟩, by rw [ha], by rw [ha'], ?_, by
    rw [ha, ha']; exact .ok trivial⟩
  refine ⟨.refl _, .inl, fun {j' sc} hn hs => ?_, id, ?_, "", by simp [Store.modifyScope]⟩
  · rw [Store.scopes_modifyScope, if_neg fun hj : j' = i' => hn i (hj ▸ hi)]
    exact hs
  · exact Nat.le_of_eq (Store.scopes_size_modifyScope ..).symm

theorem declare (hi : T.pairing.scope i i') (n : String) {b b' : Binding} (hb : b.Alike T.pairing b')
    (span : Span) :
    T.Match (fun _ _ _ => True) (Action.declare i n b span) (Action.declare i' n b' (place span)) := by
  have hs := T.holds.isSome_binding? hi n
  cases hl : (T.left.binding? i n).isSome with
  | true =>
    refine idle ?_ ?_ (.fault (.alreadyDeclared n span)) <;> rw [Action.perform_declare, if_pos]
    · exact hl
    · exact hs.trans hl
  | false =>
    refine modifies hi (fun sc sc' ha => ha.bind n hb) ?_ ?_ <;> rw [Action.perform_declare, if_neg]
    · exact ne_true_of_eq_false hl
    · exact ne_true_of_eq_false (hs.trans hl)

theorem assign (hi : T.pairing.scope i i') (n : String) {v v' : Value} (hv : v.Alike T.pairing v')
    (span : Span) :
    T.Match (fun _ _ _ => True) (Action.assign i n v span) (Action.assign i' n v' (place span)) := by
  have ho := T.holds.owner? hi n
  generalize hl : T.left.owner? i n = o, hr : T.right.owner? i' n = o' at ho
  cases ho with
  | none =>
    refine idle ?_ ?_ (.fault (.unbound n span)) <;> rw [Action.perform_assign]
    · rw [hl]
    · rw [hr]
  | @some o o' hw =>
    have hc := T.holds.isConstant hw n
    cases hlc : T.left.isConstant o n with
    | true =>
      refine idle ?_ ?_ (.fault (.constantReassigned n span)) <;> rw [Action.perform_assign]
      · rw [hl]; exact if_pos hlc
      · rw [hr]; exact if_pos (hc.trans hlc)
    | false =>
      refine modifies hw (fun sc sc' ha => ha.update n hv) ?_ ?_ <;> rw [Action.perform_assign]
      · rw [hl]; exact if_neg (ne_true_of_eq_false hlc)
      · rw [hr]; exact if_neg (ne_true_of_eq_false (hc.trans hlc))

theorem enclose (hi : T.pairing.scope i i') :
    T.Match (fun w => w.scope) (Action.enclose i) (Action.enclose i') := by
  refine ⟨⟨_, _, _, T.holds.enclose hi, T.agrees⟩, rfl, rfl, ?_, .ok (.inr ⟨rfl, rfl⟩)⟩
  refine ⟨T.pairing.within_withScope _ _, fun hp => ?_, fun {j' sc} _ hs => ?_, id, ?_, "",
    by simp [Store.addScope]⟩
  · rcases hp with hp | ⟨-, rfl⟩
    · exact .inl hp
    · exact .inr (Nat.le_refl _)
  · exact (Store.Grows.addScope T.right (some i')).scopes _ _ hs
  · simp [Store.addScope]

theorem makeFunction {f f' : Function} (hf : f.Alike place T.pairing f') :
    T.Match Value.Alike (Action.makeFunction f) (Action.makeFunction f') := by
  refine ⟨⟨_, _, _, T.holds.addFunction hf, T.agrees⟩, rfl, rfl, ?_, .ok (.function (.inr ⟨rfl, rfl⟩))⟩
  refine ⟨T.pairing.within_withFunction _ _, .inl, fun _ hs => hs, fun hg => ?_, Nat.le_refl _, "",
    by simp [Store.addFunction]⟩
  exact (Store.Grows.addFunction T.right f').functions _ _ hg

theorem print {text : String} {x x' : α} (ha : a.perform T.left = (.ok x, T.left.print text))
    (ha' : a'.perform T.right = (.ok x', T.right.print text)) (h : A T.pairing x x') : T.Match A a a' := by
  refine ⟨⟨_, _, T.pairing, T.holds.print text, T.agrees⟩, by rw [ha], by rw [ha'], ?_, by rw [ha, ha']; exact .ok h⟩
  exact ⟨.refl _, .inl, fun _ hs => hs, id, Nat.le_refl _, text, rfl, rfl⟩

theorem readClock : T.Match (fun _ n n' => now n = now n') Action.readClock Action.readClock := by
  refine ⟨⟨_, _, T.pairing, T.holds.readClock, T.agrees.readClock⟩, rfl, rfl, ?_, .ok (T.agrees 0)⟩
  exact ⟨.refl _, .inl, fun _ hs => hs, id, Nat.le_refl _, "", by simp [Store.readClock]⟩

end

end Match

end Twins

/-! ## Calls -/

/-- Functions that stand for each other are called alike. -/
structure Calls.Matching (place : Span → Span) (now : Clock) (calls calls' : Calls) : Prop where
  function : ∀ (T : Twins place now) {g g' : FunctionId} {xs xs' : List Value} (span : Span),
    T.pairing.function g g' → List.Forall₂ (Value.Alike T.pairing) xs xs' →
    T.Match Value.Alike (calls.function g xs span) (calls'.function g' xs' (place span))
  native : ∀ (T : Twins place now) (n : Native) {xs xs' : List Value} {i i' : ScopeId},
    List.Forall₂ (Value.Alike T.pairing) xs xs' → T.pairing.scope i i' →
    T.Match Value.Alike (calls.native n xs i) (calls'.native n xs' i')

namespace Calls.Matching

open Twins

variable {place : Span → Span} {now : Clock} {calls calls' : Calls} {i i' : ScopeId}

theorem apply (h : Matching place now calls calls') {T : Twins place now} (hi : T.pairing.scope i i')
    (calleeSpan span : Span) {xs xs' : List Value} (hxs : List.Forall₂ (Value.Alike T.pairing) xs xs')
    {v v' : Value} (hv : v.Alike T.pairing v') :
    T.Match Value.Alike (v.apply calls i calleeSpan span xs)
      (v'.apply calls' i' (place calleeSpan) (place span) xs') := by
  cases hv with
  | native n name => exact h.native T n hxs hi
  | function hg => exact h.function T span hg hxs
  | null => exact .fault (.notCallable _ .null)
  | boolean b => exact .fault (.notCallable _ (.boolean b))
  | number x => exact .fault (.notCallable _ (.number x))
  | string s => exact .fault (.notCallable _ (.string s))
  | object hfs => exact .fault (.notCallable _ (.object hfs))

mutual

theorem expr (h : Matching place now calls calls') (e : Expr) {T : Twins place now} (hi : T.pairing.scope i i') :
    T.Match Value.Alike (e.eval calls i) ((e.mapSpans place).eval calls' i') := by
  match e with
  | .name span n => exact .lookup hi n span
  | .number _ x => exact .pure (.number x)
  | .string _ s => exact .pure (.string s)
  | .object _ es => exact (h.entries es hi).bind fun _ _ _ _ hes => .pure (.object hes.ofEntries)
  | .binary span op l r =>
    refine (h.expr l hi).bind fun U x x' hTU hx => ?_
    refine (h.expr r (hTU.pairing.scope hi)).bind fun V y y' hUV hy => ?_
    exact .ofExcept ((hx.mono hUV.pairing).combine op span hy)
  | .assign span target value =>
    rw [Expr.mapSpans, Expr.eval, Expr.eval, Expr.name?_mapSpans, Expr.span_mapSpans]
    cases target.name? with
    | none => exact .fault (.invalidTarget target.span)
    | some n =>
      refine (h.expr value hi).bind fun U v v' hTU hv => ?_
      refine (Match.assign (hTU.pairing.scope hi) n hv span).bind fun V _ _ hUV _ => ?_
      exact .pure (hv.mono hUV.pairing)
  | .call span f as =>
    rw [Expr.mapSpans, Expr.eval, Expr.eval, Expr.span_mapSpans]
    refine (h.exprs as hi).bind fun U xs xs' hTU hxs => ?_
    refine (h.expr f (hTU.pairing.scope hi)).bind fun V v v' hUV hv => ?_
    exact h.apply (hUV.pairing.scope (hTU.pairing.scope hi)) f.span span
      (hxs.imp fun _ _ hx => hx.mono hUV.pairing) hv
  | .member span computed object property =>
    rw [Expr.mapSpans, Expr.eval, Expr.eval, Expr.name?_mapSpans, Expr.span_mapSpans, Expr.span_mapSpans]
    refine (h.expr object hi).bind fun U v v' hTU hv => ?_
    cases if computed then none else property.name? with
    | some n => exact .ofExcept (hv.field object.span n)
    | none =>
      refine (h.expr property (hTU.pairing.scope hi)).bind fun V x x' hUV hx => ?_
      refine (Match.ofExcept (hx.key property.span)).bind fun W k k' hVW hk => ?_
      subst hk
      exact .ofExcept ((hv.mono (hUV.trans hVW).pairing).field object.span k)

theorem entry (h : Matching place now calls calls') (e : Entry) {T : Twins place now} (hi : T.pairing.scope i i') :
    T.Match (fun w x x' => x'.1 = x.1 ∧ x.2.Alike w x'.2) (e.eval calls i)
      ((e.mapSpans place).eval calls' i') := by
  match e with
  | .shorthand span k => exact (Match.lookup hi k span).bind fun _ _ _ _ hv => .pure ⟨rfl, hv⟩
  | .pair _ k v => exact (h.expr v hi).bind fun _ _ _ _ hv => .pure ⟨rfl, hv⟩

theorem entries (h : Matching place now calls calls') (es : List Entry) {T : Twins place now}
    (hi : T.pairing.scope i i') :
    T.Match FieldsAlike (Entry.evalAll calls i es) (Entry.evalAll calls' i' (Entry.mapSpansAll place es)) := by
  match es with
  | [] => exact .pure .nil
  | e :: es =>
    refine (h.entry e hi).bind fun U x x' hTU hx => ?_
    refine (h.entries es (hTU.pairing.scope hi)).bind fun V fs fs' hUV hfs => ?_
    obtain ⟨k, v⟩ := x
    obtain ⟨k', v'⟩ := x'
    obtain rfl : k' = k := hx.1
    exact .pure (.cons (hx.2.mono hUV.pairing) hfs)

theorem exprs (h : Matching place now calls calls') (es : List Expr) {T : Twins place now}
    (hi : T.pairing.scope i i') :
    T.Match (fun w => List.Forall₂ (Value.Alike w)) (Expr.evalAll calls i es)
      (Expr.evalAll calls' i' (Expr.mapSpansAll place es)) := by
  match es with
  | [] => exact .pure .nil
  | e :: es =>
    refine (h.expr e hi).bind fun U v v' hTU hv => ?_
    refine (h.exprs es (hTU.pairing.scope hi)).bind fun V vs vs' hUV hvs => ?_
    exact .pure (.cons (hv.mono hUV.pairing) hvs)

end

theorem statement (h : Matching place now calls calls') (s : Stmt) {T : Twins place now}
    (hi : T.pairing.scope i i') :
    T.Match Value.Alike (s.eval calls i) ((s.mapSpans place).eval calls' i') := by
  have declared {U : Twins place now} {v v' : Value} (span : Span) (n : String) (constant : Bool)
      (hTU : T.Onward U) (hv : v.Alike U.pairing v') :
      U.Match Value.Alike (do Action.declare i n ⟨v, constant⟩ span; return v)
        (do Action.declare i' n ⟨v', constant⟩ (place span); return v') :=
    (Match.declare (hTU.pairing.scope hi) n (hv.bound constant) span).bind fun V _ _ hUV _ =>
      .pure (hv.mono hUV.pairing)
  cases s with
  | declare span constant n value =>
    cases value with
    | none => exact declared span n constant (.refl T) .null
    | some e => exact (h.expr e hi).bind fun U v v' hTU hv => declared span n constant hTU hv
  | function span n ps body =>
    have hf : Function.Alike place T.pairing ⟨n, ps, body, i⟩ ⟨n, ps, Stmt.mapSpansAll place body, i'⟩ :=
      ⟨rfl, rfl, rfl, hi⟩
    refine (Match.makeFunction hf).bind fun U v v' hTU hv => ?_
    exact declared span n true hTU hv
  | expr _ e => exact h.expr e hi

theorem program (h : Matching place now calls calls') (p : Program) {T : Twins place now}
    (hi : T.pairing.scope i i') {last last' : Value} (hl : last.Alike T.pairing last') :
    T.Match Value.Alike (p.evalFrom calls i last)
      (Program.evalFrom calls' i' last' (Stmt.mapSpansAll place p)) := by
  induction p generalizing T last last' with
  | nil => exact .pure hl
  | cons s ss ih =>
    refine (h.statement s hi).bind fun U v v' hTU hv => ?_
    exact ih (hTU.pairing.scope hi) hv

end Calls.Matching

theorem Twins.Match.bindParameters {place : Span → Span} {now : Clock} {T : Twins place now} {i i' : ScopeId}
    (hi : T.pairing.scope i i') (span : Span) (ps : List String) {xs xs' : List Value}
    (hxs : List.Forall₂ (Value.Alike T.pairing) xs xs') :
    T.Match (fun _ _ _ => True) (Action.bindParameters i span ps xs)
      (Action.bindParameters i' (place span) ps xs') := by
  induction ps generalizing T xs xs' with
  | nil => exact .pure trivial
  | cons p ps ih =>
    have hx : (xs.headD .null).Alike T.pairing (xs'.headD .null) := by
      cases hxs with
      | nil => exact .null
      | cons hx _ => exact hx
    refine (Match.declare hi p (hx.bound false) span).bind fun U _ _ hTU _ => ?_
    refine ih (hTU.pairing.scope hi) ?_
    cases hxs with
    | nil => exact .nil
    | cons _ hxs => exact hxs.imp fun _ _ hx => hx.mono hTU.pairing

theorem Calls.perform_enter_of_eq_some (calls : Calls) {id : FunctionId} {f : Function} {st : Store}
    (xs : List Value) (span : Span) (hf : st.functions[id]? = some f) :
    (calls.enter id xs span).perform st =
      (do
        let scope ← Action.enclose f.scope
        Action.bindParameters scope span f.parameters xs
        Program.eval calls scope f.body : Action Value).perform st := by
  simp only [Calls.enter, Action.perform_bind, Action.perform_get, hf]

theorem Native.matching {place : Span → Span} {now : Clock} (T : Twins place now) (n : Native)
    {xs xs' : List Value} {i i' : ScopeId} (hxs : List.Forall₂ (Value.Alike T.pairing) xs xs') :
    T.Match Value.Alike ((Host.plain now).native n xs i) ((Host.plain now).native n xs' i') := by
  cases n with
  | print =>
    refine .print rfl ?_ .null
    rw [← Value.Alike.argumentsText T.holds hxs]
    rfl
  | time =>
    refine Twins.Match.readClock.bind fun U m m' _ h => ?_
    change U.Match Value.Alike (pure (.number (now m))) (pure (.number (now m')))
    rw [h]
    exact .pure (.number _)
  | embedded key => exact .pure .null

namespace Calls.Matching

open Twins

variable {place : Span → Span} {now : Clock} {calls calls' : Calls}

theorem enter (h : Matching place now calls calls') (T : Twins place now) {g g' : FunctionId} {xs xs' : List Value}
    (span : Span) (hg : T.pairing.function g g') (hxs : List.Forall₂ (Value.Alike T.pairing) xs xs') :
    T.Match Value.Alike (calls.enter g xs span) (calls'.enter g' xs' (place span)) := by
  obtain ⟨f, f', hf, hf', ha⟩ := T.holds.function hg
  refine .congr (calls.perform_enter_of_eq_some xs span hf)
    (calls'.perform_enter_of_eq_some xs' (place span) hf') ?_
  refine (Match.enclose ha.scope).bind fun U i i' hTU hi => ?_
  rw [ha.parameters, ha.body]
  refine (Match.bindParameters hi span f.parameters ?_).bind fun V _ _ hUV _ => ?_
  · exact hxs.imp fun _ _ hx => hx.mono hTU.pairing
  · exact h.program f.body (hUV.pairing.scope hi) .null

end Calls.Matching

end RavenLang
