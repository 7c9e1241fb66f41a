import Mathlib.Data.List.Induction
import Mathlib.Data.List.Nodup
import RavenLang.Proofs.Evaluation.Session
import RavenLang.Proofs.Evaluation.Twins

/-!
# Calling a function

A call binds the parameters one after the other in a fresh frame. It stops at the first of them that repeats
an earlier one; else the body runs in that frame, and of the arguments it knows no more than what the parameters
are bound to.
-/

namespace RavenLang

/-! ## Repeated names -/

/-- The first of the names that repeats an earlier one. -/
def FirstRepeat (names : List String) (p : String) : Prop :=
  ∃ before behind, names = before ++ p :: behind ∧ before.Nodup ∧ p ∈ before

theorem exists_firstRepeat_iff {names : List String} : (∃ p, FirstRepeat names p) ↔ ¬ names.Nodup := by
  constructor
  · intro h hn
    obtain ⟨p, before, behind, rfl, -, hp⟩ := h
    exact (List.nodup_append.1 hn).2.2 p hp p List.mem_cons_self rfl
  · intro h
    induction names using List.reverseRecOn with
    | nil => exact absurd .nil h
    | append_singleton names p ih =>
      by_cases hn : names.Nodup
      · -- only the last name can repeat another
        refine ⟨p, names, [], rfl, hn, ?_⟩
        by_contra hp
        apply h
        rw [← List.concat_eq_append]
        exact hn.concat hp
      · obtain ⟨q, before, behind, rfl, hbefore, hq⟩ := ih hn
        exact ⟨q, before, behind ++ [p], by simp, hbefore, hq⟩

/-! ## One more frame -/

def Store.withFrame (st : Store) (frame : Scope) : Store := { st with scopes := st.scopes.push frame }

/-- Binds parameters by position, as variables. -/
def Scope.bindAll (frame : Scope) : List String → List Value → Scope
  | [], _ => frame
  | p :: ps, xs => (frame.bind p ⟨xs.headD .null, false⟩).bindAll ps xs.tail

namespace Store

variable (st : Store) (frame : Scope)

theorem withFrame_addScope (outer : Option ScopeId) : (st.addScope outer).2 = st.withFrame (.fresh outer) := rfl

theorem binding?_withFrame (n : String) : (st.withFrame frame).binding? st.scopes.size n = frame.find? n := by
  rw [binding?, withFrame, Array.getElem?_push_size, Option.bind_some]

theorem modifyScope_withFrame (change : Scope → Scope) :
    (st.withFrame frame).modifyScope st.scopes.size change = st.withFrame (change frame) := by
  unfold modifyScope withFrame
  congr 1
  apply Array.ext_getElem?
  intro i
  simp only [Array.getElem?_modify, Array.getElem?_push]
  by_cases hi : st.scopes.size = i
  · simp [hi]
  · simp [hi, Ne.symm hi]

end Store

/-! ## Binding parameters -/

namespace Scope

variable {ps : List String} {xs : List Value} {frame : Scope}

theorem outer_bindAll : (frame.bindAll ps xs).outer = frame.outer := by
  induction ps generalizing frame xs with
  | nil => rfl
  | cons p ps ih => exact ih

theorem find?_bindAll_of_notMem {n : String} (h : n ∉ ps) : (frame.bindAll ps xs).find? n = frame.find? n := by
  induction ps generalizing frame xs with
  | nil => rfl
  | cons p ps ih =>
    rw [List.mem_cons, not_or] at h
    obtain ⟨hne, hps⟩ := h
    rw [bindAll, ih hps, find?_bind, if_neg hne]

theorem find?_bindAll (hframe : frame.constants = []) (h : ps.Nodup) {j : Nat} {n : String} (hj : ps[j]? = some n) :
    (frame.bindAll ps xs).find? n = some ⟨xs[j]?.getD .null, false⟩ := by
  induction ps generalizing frame xs j with
  | nil => cases hj
  | cons p ps ih =>
    obtain ⟨hp, hps⟩ := List.nodup_cons.1 h
    cases j with
    | zero =>
      obtain rfl : p = n := Option.some.inj hj
      have hmark : frame.isConstant p = false := by simp [isConstant, hframe]
      rw [bindAll, find?_bindAll_of_notMem hp, find?_bind, if_pos rfl, hmark]
      cases xs <;> rfl
    | succ j =>
      have hnext : (frame.bind p ⟨xs.headD .null, false⟩).constants = [] := hframe
      rw [bindAll, ih hnext hps hj, List.getElem?_tail]

end Scope

namespace Action

/-- Names that are new to the frame and stand once are all bound, whatever is to be bound behind them. -/
theorem perform_bindParameters_append (st : Store) (frame : Scope) (span : Span) (ps : List String) {before : List String}
    (xs : List Value) (hbefore : before.Nodup) (hnew : ∀ p ∈ before, frame.find? p = none) :
    (bindParameters st.scopes.size span (before ++ ps) xs).perform (st.withFrame frame) =
      (bindParameters st.scopes.size span ps (xs.drop before.length)).perform
        (st.withFrame (frame.bindAll before xs)) := by
  induction before generalizing frame xs with
  | nil => rfl
  | cons p before ih =>
    obtain ⟨hp, hbefore⟩ := List.nodup_cons.1 hbefore
    obtain ⟨hfree, hnew⟩ := List.forall_mem_cons.1 hnew
    have hnew' : ∀ q ∈ before, (frame.bind p ⟨xs.headD .null, false⟩).find? q = none := by
      intro q hq
      have hne : q ≠ p := fun h => hp (h ▸ hq)
      rw [Scope.find?_bind, if_neg hne]
      exact hnew q hq
    rw [List.cons_append, bindParameters, perform_bind, perform_declare, Store.binding?_withFrame, hfree]
    simp only [Option.isSome_none, Bool.false_eq_true, if_false, Store.modifyScope_withFrame]
    rw [ih _ _ hbefore hnew', List.drop_tail]
    rfl

/-- Of the arguments only those count that a parameter is bound to. -/
theorem bindParameters_congr {i : ScopeId} {span : Span} {ps : List String} {xs ys : List Value}
    (h : ∀ j < ps.length, xs[j]?.getD .null = ys[j]?.getD .null) :
    bindParameters i span ps xs = bindParameters i span ps ys := by
  induction ps generalizing xs ys with
  | nil => rfl
  | cons p ps ih =>
    have hhead : xs.headD .null = ys.headD .null := by
      have h0 := h 0 (Nat.succ_pos _)
      cases xs <;> cases ys <;> exact h0
    have htail : bindParameters i span ps xs.tail = bindParameters i span ps ys.tail := by
      apply ih
      intro j hj
      rw [List.getElem?_tail, List.getElem?_tail]
      exact h (j + 1) (Nat.succ_lt_succ hj)
    rw [bindParameters, bindParameters, hhead, htail]

end Action

/-! ## Calls -/

namespace Host

variable {host : Host} {g : FunctionId} {f : Function} {st : Store} {span : Span}

theorem perform_call_congr (hf : st.functions[g]? = some f) {xs ys : List Value}
    (h : ∀ j < f.parameters.length, xs[j]?.getD .null = ys[j]?.getD .null) (d : Nat) :
    ((host.calls d).function g xs span).perform st = ((host.calls d).function g ys span).perform st := by
  cases d with
  | zero => rfl
  | succ d => rw [perform_call host d xs span hf, perform_call host d ys span hf, Action.bindParameters_congr h]

theorem perform_call_append_nulls (hf : st.functions[g]? = some f) (d : Nat) (xs : List Value) (k : Nat) :
    ((host.calls d).function g (xs ++ List.replicate k .null) span).perform st =
      ((host.calls d).function g xs span).perform st := by
  apply perform_call_congr hf
  intro j _
  by_cases hj : j < xs.length
  · rw [List.getElem?_append_left hj]
  · have hle := Nat.le_of_not_lt hj
    rw [List.getElem?_append_right hle, List.getElem?_eq_none hle, List.getElem?_replicate]
    split <;> rfl

theorem perform_call_append (hf : st.functions[g]? = some f) (d : Nat) {xs : List Value}
    (hlen : f.parameters.length ≤ xs.length) (ys : List Value) :
    ((host.calls d).function g (xs ++ ys) span).perform st = ((host.calls d).function g xs span).perform st := by
  apply perform_call_congr hf
  intro j hj
  rw [List.getElem?_append_left (Nat.lt_of_lt_of_le hj hlen)]

theorem perform_call_of_nodup (hf : st.functions[g]? = some f) (hn : f.parameters.Nodup) (d : Nat)
    (xs : List Value) :
    ((host.calls (d + 1)).function g xs span).perform st =
      (Program.eval (host.calls d) st.scopes.size f.body).perform
        (st.withFrame (Scope.bindAll (.fresh (some f.scope)) f.parameters xs)) := by
  have hbound := Action.perform_bindParameters_append st (.fresh (some f.scope)) span [] xs hn fun _ _ => rfl
  rw [List.append_nil] at hbound
  rw [perform_call host d xs span hf, Store.withFrame_addScope, Action.perform_bind, hbound]
  rfl

theorem perform_bindParameters_of_firstRepeat (st : Store) (span : Span) {ps : List String} {p : String}
    (hp : FirstRepeat ps p) (outer : Option ScopeId) (xs : List Value) :
    ∃ frame, (Action.bindParameters st.scopes.size span ps xs).perform (st.addScope outer).2 =
      (.error (.fault (.alreadyDeclared p span)), st.withFrame frame) := by
  obtain ⟨before, behind, rfl, hbefore, hp⟩ := hp
  obtain ⟨j, hj⟩ := List.getElem?_of_mem hp
  refine ⟨Scope.bindAll (.fresh outer) before xs, ?_⟩
  rw [Store.withFrame_addScope, Action.perform_bindParameters_append st _ span _ xs hbefore fun _ _ => rfl]
  rw [Action.bindParameters, Action.perform_bind, Action.perform_declare, Store.binding?_withFrame,
    Scope.find?_bindAll rfl hbefore hj]
  rfl

theorem perform_call_of_firstRepeat (hf : st.functions[g]? = some f) {p : String}
    (hp : FirstRepeat f.parameters p) (d : Nat) (xs : List Value) :
    ∃ frame, ((host.calls (d + 1)).function g xs span).perform st =
      (.error (.fault (.alreadyDeclared p span)), st.withFrame frame) := by
  obtain ⟨frame, hbound⟩ := perform_bindParameters_of_firstRepeat st span hp (some f.scope) xs
  refine ⟨frame, ?_⟩
  rw [perform_call host d xs span hf, Action.perform_bind, hbound]

/-- A call that stops while its parameters are bound begins nothing else. -/
theorem during_call_of_fault (hf : st.functions[g]? = some f) {xs : List Value} {stop : Stop}
    (h : ((Action.bindParameters st.scopes.size span f.parameters xs).perform (st.addScope (some f.scope)).2).1 =
      .error stop) {d d' : Nat} {part : Task} {st' : Store}
    (hpart : During host d (.call g xs span) st d' part st') :
    part = .call g xs span ∧ st' = st ∨ ∃ ps ys, part = .parameters st.scopes.size span ps ys := by
  induction hpart with
  | itself => exact .inl ⟨rfl, rfl⟩
  | part _ hb ih =>
    rcases ih with ⟨rfl, -⟩ | ⟨ps, ys, rfl⟩
    · cases hb
    · cases hb
      exact .inr ⟨_, _, rfl⟩
  | parameters _ hf' ih =>
    rcases ih with ⟨hcall, rfl⟩ | ⟨ps, ys, hps⟩
    · cases hcall
      exact .inr ⟨_, _, rfl⟩
    · cases hps
  | body _ hf' hbound ih =>
    rcases ih with ⟨hcall, rfl⟩ | ⟨ps, ys, hps⟩
    · cases hcall
      cases hf.symm.trans hf'
      rw [hbound] at h
      cases h
    · cases hps

theorem plain_matching (place : Span → Span) (now : Clock) (d : Nat) :
    Calls.Matching place now ((plain now).calls d) ((plain now).calls d) := by
  induction d with
  | zero =>
    refine ⟨fun T _ _ _ _ _ _ _ => ?_, fun T n _ _ _ _ hxs _ => n.matching T hxs⟩
    exact .idle rfl rfl .tooDeep
  | succ d ih =>
    exact ⟨fun T _ _ _ _ span hg hxs => ih.enter T span hg hxs, fun T n _ _ _ _ hxs _ => n.matching T hxs⟩

/-- A call goes alike in stores that are alike where the function and the arguments lead. -/
theorem call_alike {now : Clock} (d : Nat) {w : Pairing} {st' : Store} (hw : w.Holds id st st')
    (hnow : now.Agrees st st') {g' : FunctionId}
    (hg : w.function g g') {xs xs' : List Value} (hxs : List.Forall₂ (Value.Alike w) xs xs') :
    let ran := (((plain now).calls d).function g xs span).perform st
    let ran' := (((plain now).calls d).function g' xs' span).perform st'
    ∃ w' : Pairing, w.Within w' ∧ w'.Holds id ran.2 ran'.2 ∧ EndedAlike id w' Value.Alike ran.1 ran'.1 := by
  obtain ⟨U, hl, hr, hTU, he⟩ := (plain_matching id now d).function ⟨st, st', w, hw, hnow⟩ span hg hxs
  have hholds := U.holds
  rw [hl, hr] at hholds
  exact ⟨U.pairing, hTU.pairing, hholds, he⟩

/-- A call whose parameters hold a repetition stops at the first that repeats an earlier one, whatever the
arguments: no statement is begun and nothing but a further frame is there behind it. Any other call runs the body in
a fresh frame inside the scope the function was declared in, where the parameters and nothing else are bound, as
variables, by position, and to null where there is no argument. So nulls behind the arguments, and further
arguments where all parameters have theirs, change nothing. Nor does it matter from where the function is called, and
neither do the scopes and functions that it cannot reach: stores that are alike where the function and the arguments
lead are so behind the call, if the clock shows the same from both on. -/
theorem call_runs_in_fresh_frame (hf : st.functions[g]? = some f) (span : Span) :
    let call (host : Host) (d : Nat) (xs : List Value) := ((host.calls d).function g xs span).perform st
    ((∃ p, FirstRepeat f.parameters p) ↔ ¬ f.parameters.Nodup) ∧
      (∀ p, FirstRepeat f.parameters p → ∀ host d xs,
        (∃ frame, call host (d + 1) xs = (.error (.fault (.alreadyDeclared p span)), st.withFrame frame)) ∧
        ∀ d' part st', During host (d + 1) (.call g xs span) st d' part st' →
          part = .call g xs span ∨ ∃ ps ys, part = .parameters st.scopes.size span ps ys) ∧
      (f.parameters.Nodup → ∀ host d xs, ∃ frame : Scope,
        call host (d + 1) xs =
          (Program.eval (host.calls d) st.scopes.size f.body).perform (st.withFrame frame) ∧
        frame.outer = some f.scope ∧
        (∀ (j : Nat) p, f.parameters[j]? = some p → frame.find? p = some ⟨xs[j]?.getD .null, false⟩) ∧
        ∀ n, n ∉ f.parameters → frame.find? n = none) ∧
      (∀ host d xs k, call host d (xs ++ List.replicate k .null) = call host d xs) ∧
      (∀ host d xs ys, f.parameters.length ≤ xs.length → call host d (xs ++ ys) = call host d xs) ∧
      (∀ (host : Host) d i callee as xs st₀ st₁,
        (Expr.evalAll (host.calls d) i as).perform st₀ = (.ok xs, st₁) →
        (callee.eval (host.calls d) i).perform st₁ = (.ok (.function g), st) →
        ((Expr.call span callee as).eval (host.calls d) i).perform st₀ = call host d xs) ∧
      ∀ (now : Clock) (d : Nat) (w : Pairing) (st' : Store) (g' : FunctionId) (xs xs' : List Value),
        w.Holds id st st' → now.Agrees st st' → w.function g g' → List.Forall₂ (Value.Alike w) xs xs' →
        let ran := call (.plain now) d xs
        let ran' := (((Host.plain now).calls d).function g' xs' span).perform st'
        ∃ w' : Pairing, w.Within w' ∧ w'.Holds id ran.2 ran'.2 ∧ EndedAlike id w' Value.Alike ran.1 ran'.1 := by
  refine ⟨exists_firstRepeat_iff, fun p hp host d xs => ⟨perform_call_of_firstRepeat hf hp d xs, ?_⟩,
    fun hn host d xs => ?_, fun _ => perform_call_append_nulls hf, fun host d xs ys hlen => ?_,
    fun host d i callee as xs st₀ st₁ hxs hcallee => ?_, fun now d w st' g' xs xs' hw hnow hg hxs => ?_⟩
  · intro d' part st' hpart
    obtain ⟨frame, hbound⟩ := perform_bindParameters_of_firstRepeat st span hp (some f.scope) xs
    have hstop := congrArg Prod.fst hbound
    exact (during_call_of_fault hf hstop hpart).imp_left And.left
  · refine ⟨_, perform_call_of_nodup hf hn d xs, Scope.outer_bindAll, fun j p hj => Scope.find?_bindAll rfl hn hj, ?_⟩
    intro n hnot
    rw [Scope.find?_bindAll_of_notMem hnot]
    rfl
  · exact perform_call_append hf d hlen ys
  · rw [Expr.eval, Action.perform_bind, hxs]
    simp only [Action.perform_bind, hcallee]
    rfl
  · exact call_alike d hw hnow hg hxs

/-- One function that gives its second parameter, and one that has two parameters of one name. -/
theorem call_runs_in_fresh_frame_short :
    let s : Span := default
    let f : Function := ⟨"f", ["a", "b"], [.expr s (.name s "b")], global⟩
    let h : Function := ⟨"h", ["a", "b", "b"], [.expr s (.name s "a")], global⟩
    let st : Store := { Store.populated with functions := #[f, h] }
    let call (g : FunctionId) (xs : List Value) := (((plain default).calls 1).function g xs s).perform st
    let x : Value := .string "x"
    let y : Value := .string "y"
    (call 0 [x]).1.toOption.map (·.text #[]) = some "null" ∧ call 0 [x, .null] = call 0 [x] ∧
      (call 0 [x, y]).1.toOption.map (·.text #[]) = some "y" ∧ call 0 [x, y, x] = call 0 [x, y] ∧
      ∃ frame, call 1 [x] = (.error (.fault (.alreadyDeclared "b" s)), st.withFrame frame) := by
  intro s f h st call x y
  have hf : st.functions[0]? = some f := rfl
  have hh : st.functions[1]? = some h := rfl
  obtain ⟨-, -, -, hnulls, hfurther, -⟩ := call_runs_in_fresh_frame hf s
  obtain ⟨-, hrepeats, -⟩ := call_runs_in_fresh_frame hh s
  have hrepeat : FirstRepeat h.parameters "b" := ⟨["a", "b"], [], rfl, by decide, by decide⟩
  refine ⟨by decide +kernel, hnulls _ 1 [x] 1, by decide +kernel, ?_, ?_⟩
  · exact hfurther _ 1 [x, y] [x] (Nat.le_refl 2)
  · exact (hrepeats "b" hrepeat (plain default) 0 [x]).1

end Host

end RavenLang
