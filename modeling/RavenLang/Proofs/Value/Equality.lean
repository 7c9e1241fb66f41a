import Mathlib
import RavenLang.Evaluation
import RavenLang.Proofs.Value.Fields

/-!
# Equality of values

Values are compared field by field. The comparison is symmetric and transitive, it relates a value to itself
unless there is a NaN in it, and no text, type or key tells two values apart that it takes as equal.
-/

namespace RavenLang

namespace Value

mutual

/-- The numbers in a value, at any depth of its objects. -/
def numbers : Value → List Float
  | object fields => numbersOfFields fields
  | number x => [x]
  | _ => []

def numbersOfFields : List (String × Value) → List Float
  | [] => []
  | (_, v) :: fields => v.numbers ++ numbersOfFields fields

end

def NaNFree (v : Value) : Prop := ∀ x ∈ v.numbers, x.isNaN = false

mutual

/-- The values that are equal: numbers as doubles, natives by name, functions by identity, objects field by
field. -/
inductive Same : Value → Value → Prop
  | null : Same null null
  | boolean (b : Bool) : Same (boolean b) (boolean b)
  | number {x y : Float} : (x == y) = true → Same (number x) (number y)
  | string (s : String) : Same (string s) (string s)
  | object {a b : List (String × Value)} : FieldsSame a b → Same (object a) (object b)
  | native (n m : Native) (name : String) : Same (native n name) (native m name)
  | function (id : FunctionId) : Same (function id) (function id)

inductive FieldsSame : List (String × Value) → List (String × Value) → Prop
  | nil : FieldsSame [] []
  | cons {k : String} {v w : Value} {a b : List (String × Value)} : Same v w → FieldsSame a b →
      FieldsSame ((k, v) :: a) ((k, w) :: b)

end

mutual

theorem same_of_beq {v w : Value} (h : v.beq w = true) : Same v w := by
  unfold beq at h
  split at h
  · exact .null
  · exact beq_iff_eq.1 h ▸ .boolean _
  · exact .number h
  · exact beq_iff_eq.1 h ▸ .string _
  · exact .object (fieldsSame_of_beq h)
  · exact beq_iff_eq.1 h ▸ .native _ _ _
  · exact beq_iff_eq.1 h ▸ .function _
  · cases h

theorem fieldsSame_of_beq {a b : List (String × Value)} (h : fieldsBeq a b = true) : FieldsSame a b := by
  unfold fieldsBeq at h
  split at h
  · exact .nil
  · simp only [Bool.and_eq_true, beq_iff_eq] at h
    obtain ⟨⟨rfl, hv⟩, hrest⟩ := h
    exact .cons (same_of_beq hv) (fieldsSame_of_beq hrest)
  · cases h

end

mutual

theorem Same.beq {v w : Value} (h : Same v w) : v.beq w = true := by
  cases h with
  | null => rfl
  | number h => exact h
  | object h => exact h.beq
  | _ => simp [Value.beq]

theorem FieldsSame.beq {a b : List (String × Value)} (h : FieldsSame a b) : fieldsBeq a b = true := by
  cases h with
  | nil => rfl
  | cons hv hrest => simp [fieldsBeq, hv.beq, hrest.beq]

end

theorem beq_iff_same {v w : Value} : v.beq w = true ↔ Same v w := ⟨same_of_beq, Same.beq⟩

/-! ## A partial equivalence -/

mutual

theorem Same.symm {v w : Value} (h : Same v w) : Same w v := by
  cases h with
  | null => exact .null
  | boolean b => exact .boolean b
  | number h => exact .number (BEq.symm h)
  | string s => exact .string s
  | object h => exact .object h.symm
  | native n m name => exact .native m n name
  | function id => exact .function id

theorem FieldsSame.symm {a b : List (String × Value)} (h : FieldsSame a b) : FieldsSame b a := by
  cases h with
  | nil => exact .nil
  | cons hv hrest => exact .cons hv.symm hrest.symm

end

mutual

theorem Same.trans {u v w : Value} (h : Same u v) (h' : Same v w) : Same u w := by
  cases h with
  | number h =>
    cases h' with
    | number h' => exact .number (BEq.trans h h')
  | object h =>
    cases h' with
    | object h' => exact .object (h.trans h')
  | native n m name =>
    cases h' with
    | native _ k _ => exact .native n k name
  | _ => exact h'

theorem FieldsSame.trans {a b c : List (String × Value)} (h : FieldsSame a b) (h' : FieldsSame b c) :
    FieldsSame a c := by
  cases h with
  | nil => exact h'
  | cons hv hrest =>
    cases h' with
    | cons hv' hrest' => exact .cons (hv.trans hv') (hrest.trans hrest')

end

theorem number_same_self {x : Float} : (x == x) = true ↔ x.isNaN = false := by simp

mutual

theorem same_self_iff (v : Value) : Same v v ↔ v.NaNFree := by
  unfold NaNFree numbers
  match v with
  | null => exact ⟨fun _ => by simp, fun _ => .null⟩
  | boolean b => exact ⟨fun _ => by simp, fun _ => .boolean b⟩
  | number x =>
    constructor
    · intro h
      cases h with
      | number h => simpa using h
    · intro h
      exact .number (number_same_self.2 (h x (by simp)))
  | string s => exact ⟨fun _ => by simp, fun _ => .string s⟩
  | object fields =>
    rw [← fieldsSame_self_iff fields]
    constructor
    · intro h
      cases h with
      | object h => exact h
    · exact .object
  | native n name => exact ⟨fun _ => by simp, fun _ => .native n n name⟩
  | function id => exact ⟨fun _ => by simp, fun _ => .function id⟩

theorem fieldsSame_self_iff (fields : List (String × Value)) :
    FieldsSame fields fields ↔ ∀ x ∈ numbersOfFields fields, x.isNaN = false := by
  match fields with
  | [] => exact ⟨fun _ => by simp [numbersOfFields], fun _ => .nil⟩
  | (k, v) :: fields =>
    unfold numbersOfFields
    rw [List.forall_mem_append, ← fieldsSame_self_iff fields]
    have hv := same_self_iff v
    unfold NaNFree at hv
    rw [← hv]
    constructor
    · intro h
      cases h with
      | cons hv hrest => exact ⟨hv, hrest⟩
    · intro h
      exact .cons h.1 h.2

end

/-! ## What equal values have in common -/

/-- Zeros are written without their sign. -/
theorem numberText_congr {x y : Float} (h : (x == y) = true) : numberText x = numberText y := by
  obtain ⟨-, -, rfl | ⟨rfl, rfl⟩ | ⟨rfl, rfl⟩⟩ := Float.beq_iff_ne_nan_and_eq.1 h
  · rfl
  · rfl
  · rfl

mutual

theorem Same.render {v w : Value} (h : Same v w) (functions : Functions) (nested : Bool) :
    v.render functions nested = w.render functions nested := by
  cases h with
  | number h => exact numberText_congr h
  | object h =>
    have htexts := h.texts functions
    cases h with
    | nil => rfl
    | cons => rw [Value.render, Value.render, htexts]
  | _ => rfl

theorem FieldsSame.texts {a b : List (String × Value)} (h : FieldsSame a b) (functions : Functions) :
    fieldTexts functions a = fieldTexts functions b := by
  cases h with
  | nil => rfl
  | cons hv hrest => rw [fieldTexts, fieldTexts, hv.render, hrest.texts]

end

theorem Same.typeName {v w : Value} (h : Same v w) : v.typeName = w.typeName := by cases h <;> rfl

theorem Same.isCallable {v w : Value} (h : Same v w) : v.isCallable = w.isCallable := by cases h <;> rfl

theorem Same.key {v w : Value} (h : Same v w) (s s' : Span) (k : String) : v.key s = .ok k ↔ w.key s' = .ok k := by
  cases h with
  | number h => simp [Value.key, numberText_congr h]
  | string t => rfl
  | _ => simp [Value.key]

/-! ## Objects -/

theorem fieldsSame_iff_forall₂ {a b : List (String × Value)} :
    FieldsSame a b ↔ List.Forall₂ (fun p q => p.1 = q.1 ∧ Same p.2 q.2) a b := by
  induction a generalizing b with
  | nil =>
    constructor
    · intro h
      cases h
      exact .nil
    · intro h
      cases h
      exact .nil
  | cons p a ih =>
    constructor
    · intro h
      cases h with
      | cons hv hrest => exact .cons ⟨rfl, hv⟩ (ih.1 hrest)
    · intro h
      obtain ⟨k, v⟩ := p
      cases h with
      | @cons _ q _ _ hpq hrest =>
        obtain ⟨l, w⟩ := q
        obtain ⟨rfl, hv⟩ := hpq
        exact .cons hv (ih.2 hrest)

/-- Objects are equal if they read alike. -/
theorem object_same_iff {a b : List (String × Value)} (ha : Increasing a) (hb : Increasing b) :
    Same (.object a) (.object b) ↔ ∀ k, Option.Rel Same (a.lookup k) (b.lookup k) := by
  constructor
  · intro h
    cases h with
    | object h => exact lookup_of_forall₂ (fieldsSame_iff_forall₂.1 h)
  · intro h
    exact .object (fieldsSame_iff_forall₂.2 (ha.forall₂ hb h))

end Value

/-! ## Keys -/

theorem Expr.perform_member_eq_ok {calls : Calls} {i : ScopeId} {s : Span} {o p : Expr} {st st₁ st₂ st' : Store}
    {target v x : Value} (ho : (o.eval calls i).perform st = (.ok target, st₁))
    (hp : (p.eval calls i).perform st₁ = (.ok v, st₂)) :
    ((Expr.member s true o p).eval calls i).perform st = (.ok x, st') ↔
      ∃ k, v.key p.span = .ok k ∧ target.field o.span k = .ok x ∧ st' = st₂ := by
  rw [Expr.eval]
  simp only [Action.perform_bind, ho, if_true, hp]
  cases hk : v.key p.span with
  | error f => simp [Action.ofExcept]
  | ok k =>
    cases hx : target.field o.span k with
    | error f => simp [Action.ofExcept, hx]
    | ok y => simp [Action.ofExcept, hx, eq_comm]

/-- Equal values read the same field of every object. -/
theorem Value.Same.member {v w : Value} (h : Same v w) {calls : Calls} {i : ScopeId} {s s' : Span} {o p q : Expr}
    {st st₁ st₂ st' : Store} {target x : Value} (ho : (o.eval calls i).perform st = (.ok target, st₁))
    (hp : (p.eval calls i).perform st₁ = (.ok v, st₂)) (hq : (q.eval calls i).perform st₁ = (.ok w, st₂)) :
    ((Expr.member s true o p).eval calls i).perform st = (.ok x, st') ↔
      ((Expr.member s' true o q).eval calls i).perform st = (.ok x, st') := by
  rw [Expr.perform_member_eq_ok ho hp, Expr.perform_member_eq_ok ho hq]
  simp only [h.key p.span q.span]

/-- Comparing values is symmetric and transitive, and a value is equal to itself if it holds no NaN. Equal values
have the same text and the same type, both can be called or neither, and as keys they read the same field of every
object. Numbers are compared as doubles, functions by identity, natives by name, and objects by what they read. -/
theorem Value.beq_partialEquivalence :
    (∀ v w : Value, v.beq w = w.beq v) ∧
      (∀ u v w : Value, u.beq v = true → v.beq w = true → u.beq w = true) ∧
      (∀ v : Value, v.beq v = true ↔ v.NaNFree) ∧
      (∀ v w : Value, v.beq w = true →
        (∀ functions, v.text functions = w.text functions) ∧ v.typeName = w.typeName ∧
          v.isCallable = w.isCallable ∧
          ∀ (calls : Calls) (i : ScopeId) (s s' : Span) (o p q : Expr) (st st₁ st₂ : Store)
            (fields : List (String × Value)),
            (o.eval calls i).perform st = (.ok (.object fields), st₁) →
            (p.eval calls i).perform st₁ = (.ok v, st₂) → (q.eval calls i).perform st₁ = (.ok w, st₂) →
            ∀ x st', ((Expr.member s true o p).eval calls i).perform st = (.ok x, st') ↔
              ((Expr.member s' true o q).eval calls i).perform st = (.ok x, st')) ∧
      ((∀ x y : Float, (number x).beq (number y) = (x == y)) ∧ (number (-0)).beq (number 0) = true) ∧
      (∀ f g : FunctionId, (function f).beq (function g) = true ↔ f = g) ∧
      (∀ (n m : Native) (a b : String), (native n a).beq (native m b) = true ↔ a = b) ∧
      ∀ a b : List (String × Value), Increasing a → Increasing b →
        ((object a).beq (object b) = true ↔
          ∀ k, Option.Rel (fun v w => v.beq w = true) (a.lookup k) (b.lookup k)) := by
  refine ⟨fun v w => ?_, fun u v w h h' => ?_, fun v => ?_, fun v w h => ?_, ⟨fun _ _ => rfl, by decide +kernel⟩,
    fun f g => ?_, fun n m a b => ?_, fun a b ha hb => ?_⟩
  · rw [Bool.eq_iff_iff, beq_iff_same, beq_iff_same]
    exact ⟨Same.symm, Same.symm⟩
  · exact ((same_of_beq h).trans (same_of_beq h')).beq
  · rw [beq_iff_same, same_self_iff]
  · have hsame := same_of_beq h
    refine ⟨fun functions => hsame.render functions false, hsame.typeName, hsame.isCallable, ?_⟩
    intro calls i s s' o p q st st₁ st₂ fields ho hp hq x st'
    exact hsame.member ho hp hq
  · simp [beq]
  · simp [beq]
  · simp only [beq_iff_same]
    exact object_same_iff ha hb

/-- Objects with a zero of either sign and natives of one name, their entries in either order. -/
theorem Value.beq_partialEquivalence_zeros :
    let v := object (fieldsOfEntries [("b", .number (-0)), ("a", .native .print "p")])
    let w := object (fieldsOfEntries [("a", .native .time "p"), ("b", .number 0)])
    let nan := object [("n", .number (0 / 0))]
    v.beq w = true ∧ w.beq v = true ∧ v.beq v = true ∧ v.text #[] = w.text #[] ∧ ¬ nan.beq nan = true := by
  intro v w nan
  obtain ⟨hcomm, -, hself, htext, -⟩ := Value.beq_partialEquivalence
  have h : v.beq w = true := by decide +kernel
  have hnumbers : v.numbers = [-0] := by decide +kernel
  have hv : v.NaNFree := by
    unfold NaNFree
    rw [hnumbers]
    decide +kernel
  refine ⟨h, hcomm v w ▸ h, (hself v).2 hv, (htext v w h).1 #[], fun hnan => ?_⟩
  have hx := (hself nan).1 hnan (0 / 0) (by simp [nan, numbers, numbersOfFields])
  exact absurd hx (by decide +kernel)

end RavenLang
