import Mathlib
import RavenLang.Number.Decimal

/-!
# Digit runs are numbers

A run of digits is read as the double nearest to its value.
-/

namespace RavenLang.Number

def IsDigits (ds : List Char) : Prop := ds ≠ [] ∧ ∀ c ∈ ds, c.isDigit = true

instance (ds : List Char) : Decidable (IsDigits ds) :=
  decidable_of_iff (ds ≠ [] ∧ ds.all Char.isDigit = true) (by simp [IsDigits])

theorem toLower_of_isDigit {c : Char} (h : c.isDigit = true) : c.toLower = c := by
  rw [Char.toLower, dif_neg]
  intro h
  obtain ⟨hA, -⟩ := h
  have hle := (Char.isDigit_iff_toNat.1 h).2
  exact absurd (Nat.le_trans (UInt32.le_iff_toNat_le.1 hA) hle) (by decide)

theorem readName?_of_isDigit {c : Char} (h : c.isDigit = true) (negative : Bool) (cs : List Char) :
    readName? negative (c :: cs) = none := by
  have hi : c ≠ 'i' := by rintro rfl; exact absurd h (by decide)
  have hn : c ≠ 'n' := by rintro rfl; exact absurd h (by decide)
  simp only [readName?, List.map_cons, toLower_of_isDigit h]
  split <;> simp_all

theorem readMagnitude?_of_isDigits {ds : List Char} (h : IsDigits ds) (negative : Bool) :
    readMagnitude? negative ds = some (ofDecimal negative (digitsValue ds) 0) := by
  have ht := List.takeWhile_eq_self_iff.2 h.2
  have hd := List.dropWhile_eq_nil_iff.2 h.2
  simp [readMagnitude?, ht, hd, h.1, takeFraction, readExponent?]

theorem readUnsigned?_of_isDigits {ds : List Char} (h : IsDigits ds) (negative : Bool) :
    readUnsigned? negative ds = some (ofDecimal negative (digitsValue ds) 0) := by
  obtain ⟨c, cs, rfl⟩ := List.exists_cons_of_ne_nil h.1
  rw [readUnsigned?, readName?_of_isDigit (h.2 c List.mem_cons_self), readMagnitude?_of_isDigits h,
    Option.none_or]

theorem read?_of_isDigits {text : String} (h : IsDigits text.toList) :
    read? text = some (ofDecimal false (digitsValue text.toList) 0) := by
  rw [read?]
  split
  · next cs hcs => exact absurd (h.2 '-' (by simp [hcs])) (by decide)
  · next cs hcs => exact absurd (h.2 '+' (by simp [hcs])) (by decide)
  · exact readUnsigned?_of_isDigits h false

/-- A number that digits are read as. -/
def IsNumeral (x : Float) : Prop := ∃ text : String, IsDigits text.toList ∧ read? text = some x

theorem IsNumeral.eq_ofDecimal {x : Float} (h : IsNumeral x) : ∃ n, x = ofDecimal false n 0 := by
  obtain ⟨text, ht, hx⟩ := h
  rw [read?_of_isDigits ht] at hx
  exact ⟨_, (Option.some.inj hx).symm⟩

end RavenLang.Number
