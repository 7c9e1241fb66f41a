import RavenLang.Proofs.Evaluation.Depth
import RavenLang.Proofs.Grammar.Moved
import RavenLang.Run

/-!
# Evaluation does not see places

Places are handed on, to functions and to faults, and decide nothing: what a tree does, it does
wherever it was read from, up to places.
-/

namespace RavenLang

/-! ## Without places -/

/-- The function without the places of its body. -/
def Function.erase (f : Function) : Function := { f with body := Program.erase f.body }

/-- The store without the places in the bodies of its functions. -/
def Store.erase (st : Store) : Store := { st with functions := st.functions.map Function.erase }

abbrev Fault.erase (f : Fault) : Fault := f.mapSpan .forget

def Stop.erase : Stop → Stop
  | fault f => fault f.erase
  | tooDeep => tooDeep

/-! ### Stores -/

namespace Store

variable {st st' : Store}

theorem erase_functions (st : Store) (id : FunctionId) :
    st.erase.functions[id]? = st.functions[id]?.map Function.erase := by
  rw [erase, Array.getElem?_map]

@[simp] theorem erase_modifyScope (st : Store) (i : ScopeId) (change : Scope → Scope) :
    (st.modifyScope i change).erase = st.erase.modifyScope i change := rfl

@[simp] theorem erase_addScope (st : Store) (outer : Option ScopeId) :
    (st.addScope outer).2.erase = (st.erase.addScope outer).2 := rfl

@[simp] theorem erase_addFunction (st : Store) (f : Function) :
    (st.addFunction f).2.erase = (st.erase.addFunction f.erase).2 := by
  simp only [erase, addFunction, Array.map_push]

@[simp] theorem erase_print (st : Store) (text : String) : (st.print text).erase = st.erase.print text := rfl

@[simp] theorem erase_readClock (st : Store) : st.readClock.2.erase = st.erase.readClock.2 := rfl

@[simp] theorem binding?_erase (st : Store) (i : ScopeId) (name : String) :
    st.erase.binding? i name = st.binding? i name := rfl

@[simp] theorem isConstant_erase (st : Store) (i : ScopeId) (name : String) :
    st.erase.isConstant i name = st.isConstant i name := rfl

@[simp] theorem chain_erase (st : Store) (i : ScopeId) : st.erase.chain i = st.chain i := by
  fun_induction chain st i with
  | case1 i hs => rw [chain, erase, hs]
  | case2 i sc hs ho => rw [chain, erase, hs]; simp [ho]
  | case3 i sc hs o ho hlt ih => rw [chain, erase, hs]; simp [ho, hlt, ← ih, erase]
  | case4 i sc hs o ho hlt => rw [chain, erase, hs]; simp [ho, hlt]

@[simp] theorem owner?_erase (st : Store) (i : ScopeId) (name : String) :
    st.erase.owner? i name = st.owner? i name := by
  simp only [owner?, chain_erase, binding?_erase]

end Store

mutual

theorem Value.render_erase (st : Store) (nested : Bool) (v : Value) :
    v.render st.erase.functions nested = v.render st.functions nested := by
  match v with
  | .null | .boolean _ | .number _ | .string _ | .native .. | .object [] => rfl
  | .object (field :: fields) => rw [render, render, fieldTexts_erase]
  | .function id =>
    rw [render, render, Store.erase_functions]
    cases st.functions[id]? <;> rfl

theorem Value.fieldTexts_erase (st : Store) (fields : List (String × Value)) :
    Value.fieldTexts st.erase.functions fields = Value.fieldTexts st.functions fields := by
  match fields with
  | [] => rfl
  | (k, v) :: fields => rw [fieldTexts, fieldTexts, v.render_erase, fieldTexts_erase]

end

theorem Value.argumentsText_erase (st : Store) (vs : List Value) :
    Value.argumentsText st.erase.functions vs = Value.argumentsText st.functions vs := by
  simp only [argumentsText, text, render_erase]

/-! ## Actions -/

/-- The same outcome and the same store, up to places. -/
structure SameEnd {ε α : Type} (erase : ε → ε) (r r' : Except ε α × Store) : Prop where
  outcome : r.1.mapError erase = r'.1.mapError erase
  store : r.2.erase = r'.2.erase

/-- From stores that are the same up to places, both actions end the same. -/
def Action.Agree {α : Type} (a b : Action α) : Prop :=
  ∀ st st' : Store, st.erase = st'.erase → SameEnd Stop.erase (a.perform st) (b.perform st')

namespace Action.Agree

variable {α β : Type} {a b c : Action α}

theorem symm (h : a.Agree b) : b.Agree a := by
  intro st st' he
  obtain ⟨ho, hs⟩ := h st' st he.symm
  exact ⟨ho.symm, hs.symm⟩

theorem trans (h : a.Agree b) (h' : b.Agree c) : a.Agree c := by
  intro st st' he
  obtain ⟨ho, hs⟩ := h st st' he
  obtain ⟨ho', hs'⟩ := h' st' st' rfl
  exact ⟨ho.trans ho', hs.trans hs'⟩

/-- The store is left as it is. -/
theorem idle {r r' : Except Stop α} (ha : ∀ st, a.perform st = (r, st)) (hb : ∀ st, b.perform st = (r', st))
    (h : r.mapError Stop.erase = r'.mapError Stop.erase) : a.Agree b := by
  intro st st' he
  rw [ha, hb]
  exact ⟨h, he⟩

theorem pure (x : α) : Agree (pure x) (pure x) := idle (fun _ => rfl) (fun _ => rfl) rfl

theorem tooDeep : Agree (α := α) (throw .tooDeep) (throw .tooDeep) := idle (fun _ => rfl) (fun _ => rfl) rfl

theorem fault (f : Fault) : Agree (α := α) (Action.fault f) (Action.fault f.erase) := by
  refine idle (fun _ => rfl) (fun _ => rfl) (congrArg (Except.error ∘ Stop.fault) ?_)
  cases f <;> rfl

theorem bind {f g : α → Action β} (h : a.Agree b) (hf : ∀ x, (f x).Agree (g x)) : (a >>= f).Agree (b >>= g) := by
  intro st st' he
  rw [perform_bind, perform_bind]
  obtain ⟨ho, hs⟩ := h st st' he
  generalize a.perform st = r at ho hs ⊢
  generalize b.perform st' = r' at ho hs ⊢
  obtain ⟨r, mid⟩ := r
  obtain ⟨r', mid'⟩ := r'
  cases r with
  | ok x =>
    cases r' with
    | ok x' =>
      obtain rfl : x = x' := Except.ok.inj ho
      exact hf x mid mid' hs
    | error e' => cases ho
  | error e =>
    cases r' with
    | ok x' => cases ho
    | error e' => exact ⟨congrArg Except.error (Except.error.inj ho), hs⟩

/-! ### What is done to stores -/

variable (i : ScopeId) (name : String) (s s' : Span)

theorem lookup : (Action.lookup i name s).Agree (Action.lookup i name s') := by
  intro st st' he
  have ho : st.owner? i name = st'.owner? i name := by rw [← st.owner?_erase, he, st'.owner?_erase]
  have hb (o : ScopeId) : st.binding? o name = st'.binding? o name := by
    rw [← st.binding?_erase, he, st'.binding?_erase]
  simp only [perform_lookup, ho, hb]
  split <;> exact ⟨rfl, he⟩

theorem declare (b : Binding) : (Action.declare i name b s).Agree (Action.declare i name b s') := by
  intro st st' he
  have hb : st.binding? i name = st'.binding? i name := by rw [← st.binding?_erase, he, st'.binding?_erase]
  rw [perform_declare, perform_declare, hb]
  split
  · exact ⟨rfl, he⟩
  · refine ⟨rfl, ?_⟩
    rw [Store.erase_modifyScope, he, Store.erase_modifyScope]

theorem assign (v : Value) : (Action.assign i name v s).Agree (Action.assign i name v s') := by
  intro st st' he
  have ho : st.owner? i name = st'.owner? i name := by rw [← st.owner?_erase, he, st'.owner?_erase]
  have hc (o : ScopeId) : st.isConstant o name = st'.isConstant o name := by
    rw [← st.isConstant_erase, he, st'.isConstant_erase]
  simp only [perform_assign, ho, hc]
  split
  · exact ⟨rfl, he⟩
  · split
    · exact ⟨rfl, he⟩
    · refine ⟨rfl, ?_⟩
      rw [Store.erase_modifyScope, he, Store.erase_modifyScope]

theorem readClock : Action.readClock.Agree Action.readClock := by
  intro st st' he
  have hn : st.readings = st'.readings := congrArg (·.readings) he
  rw [perform_readClock, perform_readClock, hn]
  refine ⟨rfl, ?_⟩
  rw [Store.erase_readClock, he, Store.erase_readClock]

theorem makeFunction {f f' : Function} (h : f.erase = f'.erase) :
    (Action.makeFunction f).Agree (Action.makeFunction f') := by
  intro st st' he
  have hn : st.functions.size = st'.functions.size := by
    have hf := congrArg (·.functions.size) he
    simpa [Store.erase] using hf
  rw [perform_makeFunction, perform_makeFunction, hn]
  refine ⟨rfl, ?_⟩
  rw [Store.erase_addFunction, he, h, Store.erase_addFunction]

theorem congruence : Congruence .forget Action.Agree where
  pure := pure
  bind := bind
  fault := fault
  lookup i n s := lookup i n s _
  declare i n b s := declare i n s _ b
  assign i n v s := assign i n s _ v
  makeFunction n ps body i := by
    refine makeFunction ?_
    rw [Stmt.mapSpansAll_eq_map]
    exact congrArg (Function.mk n ps · i) (Program.erase_mapSpans .forget body).symm

end Action.Agree

/-! ## Evaluation -/

/-- Calls do not see places. -/
abbrev Calls.Blind (calls : Calls) : Prop := calls.Related .forget Action.Agree calls

namespace Calls.Blind

variable {calls : Calls} {i : ScopeId}

theorem erased (h : calls.Blind) (p : Program) (last : Value) :
    (p.evalFrom calls i last).Agree ((Program.erase p).evalFrom calls i last) := by
  have hp := Action.Agree.congruence.program h p last (i := i)
  rwa [Stmt.mapSpansAll_eq_map] at hp

/-- Programs that are the same up to places do the same up to places. -/
theorem program (h : calls.Blind) {p q : Program} (he : Program.erase p = Program.erase q) (last : Value) :
    (p.evalFrom calls i last).Agree (q.evalFrom calls i last) := by
  have hq := h.erased q last (i := i)
  rw [← he] at hq
  exact (h.erased p last).trans hq.symm

theorem enter (h : calls.Blind) (id : FunctionId) (xs : List Value) (s : Span) :
    (calls.enter id xs s).Agree (calls.enter id xs s.forget) := by
  intro st st' he
  have hf : st.functions[id]?.map Function.erase = st'.functions[id]?.map Function.erase := by
    rw [← st.erase_functions, he, st'.erase_functions]
  rw [Calls.perform_enter, Calls.perform_enter]
  generalize st.functions[id]? = found at hf ⊢
  generalize st'.functions[id]? = found' at hf ⊢
  cases found with
  | none =>
    cases found' with
    | none => exact ⟨rfl, he⟩
    | some f' => cases hf
  | some f =>
    cases found' with
    | none => cases hf
    | some f' =>
      obtain ⟨-, hps, hbody, hscope⟩ := Function.mk.inj (Option.some.inj hf)
      have hsize : st.scopes.size = st'.scopes.size := congrArg (·.scopes.size) he
      have hadd : (st.addScope (some f.scope)).2.erase = (st'.addScope (some f'.scope)).2.erase := by
        rw [Store.erase_addScope, he, hscope, Store.erase_addScope]
      have hbind := Action.Agree.congruence.bindParameters s f.parameters xs (i := st.scopes.size)
      have hrun := hbind.bind fun _ => h.program hbody .null (i := st.scopes.size)
      dsimp only
      rw [← hsize, ← hps]
      exact hrun _ _ hadd

end Calls.Blind

/-! ## Hosts -/

/-- The natives of the embedding program do not see places. -/
def Host.Blind (host : Host) : Prop := ∀ key xs i, (host.embedded key xs i).Agree (host.embedded key xs i)

theorem Action.Agree.print (xs : List Value) :
    Agree (do modify fun st => st.print (Value.argumentsText st.functions xs ++ "\n"); return Value.null)
      (do modify fun st => st.print (Value.argumentsText st.functions xs ++ "\n"); return Value.null) := by
  intro st st' he
  have htext : Value.argumentsText st.functions xs = Value.argumentsText st'.functions xs := by
    rw [← Value.argumentsText_erase, he, Value.argumentsText_erase]
  simp only [perform_bind, perform_modify, perform_pure, htext]
  refine ⟨rfl, ?_⟩
  rw [Store.erase_print, he, Store.erase_print]

namespace Host

theorem plain_blind (now : Clock) : (plain now).Blind := fun _ _ _ => .pure _

theorem Blind.native {host : Host} (h : host.Blind) (n : Native) (xs : List Value) (i : ScopeId) :
    (host.native n xs i).Agree (host.native n xs i) := by
  cases n with
  | print => exact .print xs
  | time => exact .bind .readClock fun n => .pure (Value.number (host.now n))
  | embedded key => exact h key xs i

theorem Blind.calls {host : Host} (h : host.Blind) (d : Nat) : (host.calls d).Blind := by
  induction d with
  | zero => exact ⟨fun _ _ _ => .tooDeep, h.native⟩
  | succ d ih => exact ⟨ih.enter, h.native⟩

end Host

theorem Native.clockless_blind (n : Native) (xs : List Value) (i : ScopeId) :
    (n.clockless xs i).Agree (n.clockless xs i) := by
  have hplain := (Host.plain_blind default).native n xs i
  cases n with
  | time => exact .tooDeep
  | print | embedded => exact hplain

theorem Calls.clockless_blind (d : Nat) : (clockless d).Blind := by
  induction d with
  | zero => exact ⟨fun _ _ _ => .tooDeep, Native.clockless_blind⟩
  | succ d ih => exact ⟨ih.enter, Native.clockless_blind⟩

/-! ## Runs -/

def Failure.erase : Failure → Failure
  | notAProgram fault => notAProgram (fault.mapSpan .forget)
  | stopped fault => stopped fault.erase
  | tooDeep => tooDeep

theorem Failure.erase_ofStop (e : Stop) : (ofStop e).erase = ofStop e.erase := by cases e <;> rfl

theorem SameEnd.ofStop {r r' : Except Stop Value × Store} (h : SameEnd Stop.erase r r') :
    SameEnd Failure.erase (r.1.mapError .ofStop, r.2) (r'.1.mapError .ofStop, r'.2) := by
  have hstop (r : Except Stop Value) :
      (r.mapError .ofStop).mapError Failure.erase = (r.mapError Stop.erase).mapError .ofStop := by
    cases r with
    | ok v => rfl
    | error e => exact congrArg Except.error (Failure.erase_ofStop e)
  refine ⟨?_, h.store⟩
  rw [hstop, hstop, h.outcome]

theorem run_of_ok {calls : Calls} {i : ScopeId} {source : String} {p : Program}
    (hp : Program.ofSource source = .ok p) (st : Store) :
    run calls i source st =
      (((p.eval calls i).perform st).1.mapError .ofStop, ((p.eval calls i).perform st).2) := by
  rw [run, hp]

theorem Parsed.mapSpans_eq_ok {f : Span → Span} {r : Parsed} {p : Program} :
    mapSpans f r = .ok p ↔ ∃ q, r = .ok q ∧ q.map (·.mapSpans f) = p := by
  cases r with
  | ok q => simp [mapSpans]
  | error fault => simp [mapSpans]

/-- Texts that are read the same up to places run the same up to places. -/
theorem Calls.Blind.run {calls : Calls} (h : calls.Blind) {i : ScopeId} {a b : String}
    (hp : Parsed.erase (Program.ofSource a) = Parsed.erase (Program.ofSource b))
    {st st' : Store} (he : st.erase = st'.erase) :
    SameEnd Failure.erase (RavenLang.run calls i a st) (RavenLang.run calls i b st') := by
  cases ha : Program.ofSource a with
  | ok p =>
    rw [ha] at hp
    obtain ⟨q, hb, hq⟩ := Parsed.mapSpans_eq_ok.1 hp.symm
    rw [run_of_ok ha, run_of_ok hb]
    exact (h.program hq.symm .null st st' he).ofStop
  | error fault =>
    cases hb : Program.ofSource b with
    | ok q =>
      rw [ha, hb] at hp
      cases hp
    | error fault' =>
      rw [ha, hb] at hp
      rw [RavenLang.run, RavenLang.run, ha, hb]
      exact ⟨congrArg (Except.error ∘ Failure.notAProgram) (Except.error.inj hp), he⟩

end RavenLang
