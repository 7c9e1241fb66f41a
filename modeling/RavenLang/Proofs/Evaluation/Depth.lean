import RavenLang.Proofs.Evaluation.Congruence
import RavenLang.Proofs.Evaluation.Keeps

/-!
# Depth and clock

How deep calls may be nested matters only to evaluations that are stopped for it, and the
clock only to those that ask for the time.
-/

namespace RavenLang

/-- Where the first action is not stopped for its depth, the second does the same. -/
def Action.Below {α : Type} (a b : Action α) : Prop :=
  ∀ st, (a.perform st).1 = .error .tooDeep ∨ a.perform st = b.perform st

namespace Action.Below

variable {α β : Type}

theorem refl (a : Action α) : a.Below a := fun _ => .inr rfl

theorem tooDeep (a : Action α) : (throw .tooDeep : Action α).Below a := fun _ => .inl rfl

theorem bind {a b : Action α} {f g : α → Action β} (h : a.Below b) (hf : ∀ x, (f x).Below (g x)) :
    (a >>= f).Below (b >>= g) := by
  intro st
  rw [perform_bind, perform_bind]
  rcases h st with h | h
  · cases hr : a.perform st with
    | mk r mid =>
      obtain rfl : r = .error .tooDeep := by rw [← h, hr]
      exact .inl rfl
  · rw [← h]
    cases a.perform st with
    | mk r mid =>
      cases r with
      | error e => exact .inr rfl
      | ok x => exact hf x mid

theorem congruence : Congruence id Action.Below where
  pure x := refl _
  bind := bind
  fault f := by
    rw [Fault.mapSpan_id]
    exact refl _
  lookup _ _ _ := refl _
  declare _ _ _ _ := refl _
  assign _ _ _ _ := refl _
  makeFunction n ps body i := by
    rw [Stmt.mapSpansAll_id]
    exact refl _

end Action.Below

structure Calls.Below (calls calls' : Calls) : Prop where
  function : ∀ id xs span, (calls.function id xs span).Below (calls'.function id xs span)
  native : ∀ n xs i, (calls.native n xs i).Below (calls'.native n xs i)

namespace Calls.Below

variable {calls calls' : Calls} {i : ScopeId}

theorem program (h : calls.Below calls') (p : Program) (last : Value) :
    (p.evalFrom calls i last).Below (p.evalFrom calls' i last) := by
  have hrel : calls.Related id Action.Below calls' := ⟨h.function, h.native⟩
  have hp := Action.Below.congruence.program hrel p last (i := i)
  rwa [Stmt.mapSpansAll_id] at hp

theorem enter (h : calls.Below calls') (id : FunctionId) (xs : List Value) (span : Span) :
    (calls.enter id xs span).Below (calls'.enter id xs span) := by
  refine Action.Below.bind (.refl _) fun st => ?_
  cases st.functions[id]? with
  | none => exact .refl _
  | some f => exact Action.Below.bind (.refl _) fun _ => .bind (.refl _) fun _ => h.program f.body .null

end Calls.Below

/-! ## Without a clock -/

/-- The natives of the language where there is no clock: asking for the time ends the evaluation
like calls that are nested too deeply. -/
def Native.clockless : Native → List Value → ScopeId → Action Value
  | .time, _, _ => throw .tooDeep
  | n, arguments, scope => (Host.plain default).native n arguments scope

def Calls.clockless : (depth : Nat) → Calls
  | 0 => ⟨fun _ _ _ => throw .tooDeep, Native.clockless⟩
  | depth + 1 => ⟨(clockless depth).enter, Native.clockless⟩

theorem Native.clockless_below (now : Clock) (n : Native) (xs : List Value) (i : ScopeId) :
    (n.clockless xs i).Below ((Host.plain now).native n xs i) := by
  cases n with
  | print => exact .refl _
  | time => exact .tooDeep _
  | embedded key => exact .refl _

theorem Calls.clockless_below (now : Clock) {d d' : Nat} (h : d ≤ d') :
    (clockless d).Below ((Host.plain now).calls d') := by
  induction d generalizing d' with
  | zero =>
    refine ⟨fun _ _ _ => .tooDeep _, fun n xs i => ?_⟩
    rw [Host.native_calls]
    exact n.clockless_below now xs i
  | succ d ih =>
    obtain ⟨d', rfl⟩ : ∃ k, d' = k + 1 := ⟨d' - 1, by omega⟩
    have hle : d ≤ d' := Nat.le_of_succ_le_succ h
    exact ⟨(ih hle).enter, fun n xs i => n.clockless_below now xs i⟩

end RavenLang
