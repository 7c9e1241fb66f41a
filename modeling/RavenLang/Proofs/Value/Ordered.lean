import Mathlib.Data.List.Lex
import Mathlib.Order.Monotone.Basic
import RavenLang.Proofs.Evaluation.Values
import RavenLang.Proofs.Value.Fields

/-!
# Ordered values

The objects in a value have increasing keys at every depth, and so they are shown.
-/

namespace RavenLang

def Text.codePoints (s : String) : List Nat := s.toList.map Char.toNat

theorem Text.lt_iff_codePoints {s t : String} : s < t ↔ codePoints s < codePoints t := by
  have hmono : StrictMono (List.map Char.toNat) := by
    intro a b h
    exact List.map_lt (fun _ _ hlt => hlt) h
  rw [String.lt_iff_toList_lt]
  exact hmono.lt_iff_lt.symm

namespace Value

mutual

/-- The keys of all objects in the value increase. -/
def Ordered : Value → Prop
  | object fields => Increasing fields ∧ FieldsOrdered fields
  | _ => True

def FieldsOrdered : List (String × Value) → Prop
  | [] => True
  | (_, v) :: fields => v.Ordered ∧ FieldsOrdered fields

end

def braced (texts : List String) : String :=
  if texts = [] then "\x7b\x7d" else "\x7b " ++ ", ".intercalate texts ++ " \x7d"

mutual

/-- How a value is shown: an object by its fields in strictly increasing order of the code points of their
keys, so each key once, and the values of the fields in the same way. -/
inductive Shows (functions : Functions) : Bool → Value → String → Prop
  | object {nested : Bool} {fields : List (String × Value)} {texts : List String} :
      fields.Pairwise (fun p q => Text.codePoints p.1 < Text.codePoints q.1) → FieldsShow functions fields texts →
      Shows functions nested (object fields) (braced texts)
  | plain {nested : Bool} {v : Value} : v.typeName ≠ "object" → Shows functions nested v (v.render functions nested)

inductive FieldsShow (functions : Functions) : List (String × Value) → List String → Prop
  | nil : FieldsShow functions [] []
  | cons {k : String} {v : Value} {text : String} {fields : List (String × Value)} {texts : List String} :
      Shows functions true v text → FieldsShow functions fields texts →
      FieldsShow functions ((k, v) :: fields) ((k ++ ": " ++ text) :: texts)

end

theorem fieldsOrdered_iff {fields : List (String × Value)} : FieldsOrdered fields ↔ ∀ p ∈ fields, p.2.Ordered := by
  induction fields with
  | nil => simp [FieldsOrdered]
  | cons p fields ih => simp [FieldsOrdered, ih]

theorem ordered_object {fields : List (String × Value)} :
    (object fields).Ordered ↔ Increasing fields ∧ ∀ p ∈ fields, p.2.Ordered := by
  rw [Ordered, fieldsOrdered_iff]

theorem ordered_fieldsOfEntries {entries : List (String × Value)} (h : ∀ p ∈ entries, p.2.Ordered) :
    (object (fieldsOfEntries entries)).Ordered :=
  ordered_object.2 ⟨increasing_fieldsOfEntries entries, fun p hp => h p (mem_fieldsOfEntries hp)⟩

theorem pervasive_ordered : Pervasive Ordered where
  null := trivial
  number _ := trivial
  string _ := trivial
  function _ := trivial
  object := ordered_fieldsOfEntries
  field h hmem := (ordered_object.1 h).2 _ hmem

/-! ## Text -/

theorem render_object (functions : Functions) (nested : Bool) (fields : List (String × Value)) :
    (object fields).render functions nested = braced (fieldTexts functions fields) := by
  cases fields with
  | nil => rfl
  | cons p fields => simp [render, braced, fieldTexts]

mutual

theorem Ordered.shows {v : Value} (h : v.Ordered) (functions : Functions) (nested : Bool) :
    v.Shows functions nested (v.render functions nested) := by
  match v with
  | .object fields =>
    rw [render_object]
    obtain ⟨hkeys, hfields⟩ := h
    refine .object (hkeys.imp fun hlt => Text.lt_iff_codePoints.1 hlt) (fieldsShow hfields functions)
  | .null | .boolean _ | .number _ | .string _ | .native .. | .function _ => exact .plain (by simp [typeName])

theorem fieldsShow {fields : List (String × Value)} (h : FieldsOrdered fields) (functions : Functions) :
    FieldsShow functions fields (fieldTexts functions fields) := by
  match fields with
  | [] => exact .nil
  | (k, v) :: fields => exact .cons (Ordered.shows h.1 functions true) (fieldsShow h.2 functions)

end

end Value

end RavenLang
