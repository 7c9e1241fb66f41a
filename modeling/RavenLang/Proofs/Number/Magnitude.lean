import RavenLang.Proofs.Number.Bits
import RavenLang.Proofs.Number.Digits

/-!
# Magnitudes

Digits have no sign, so what is read of them is a magnitude. However many there are, it is a number.
-/

namespace RavenLang.Number

open Float.Model Float.Model.UnpackedFloat

/-- Neither NaN nor below zero. A zero is without a sign, too. -/
structure IsMagnitude (x : Float) : Prop where
  isNaN_eq : x.isNaN = false
  nonneg : 0 ≤ x
  unsigned : x.toBits.toNat < twoTo 63

/-! ## Bit patterns -/

/-- Infinity is the last pattern that is a number without a sign. -/
theorem unpackMantissa_eq_zero {b : BitVec 64} (hb : b.toNat ≤ infinityBits) (hx : @unpackExponent .binary64 b = -1#_) :
    @unpackMantissa .binary64 b = 0#_ := by
  have he := toNat_unpackExponent b
  have hones : (-1#_ : BitVec (Format.exponentBits .binary64)).toNat = 2047 := by decide
  rw [hx, hones] at he
  apply BitVec.eq_of_toNat_eq
  rw [toNat_unpackMantissa]
  change b.toNat % 2 ^ 52 = 0
  unfold infinityBits at hb
  omega

theorem unpackSign_eq_zero {b : BitVec 64} (hb : b.toNat ≤ infinityBits) : @unpackSign .binary64 b = 0#1 := by
  apply BitVec.eq_of_toNat_eq
  rw [toNat_unpackSign]
  change b.toNat / 2 ^ 63 = 0
  unfold infinityBits at hb
  omega

def Unsigned : UnpackedFloat → Prop
  | .infinity .positive | .zero .positive | .finite .positive .. => True
  | _ => False

theorem unsigned_unpack {b : BitVec 64} (hb : b.toNat ≤ infinityBits) : Unsigned (unpack .binary64 b) := by
  have hs : Sign.ofBitVec (0#1) = .positive := rfl
  unfold UnpackedFloat.unpack
  simp only [unpackSign_eq_zero hb, hs]
  by_cases hx : @unpackExponent .binary64 b = -1#_
  · rw [if_pos hx, if_pos (unpackMantissa_eq_zero hb hx)]
    trivial
  · rw [if_neg hx]
    split_ifs <;> trivial

theorem toBits_ofBits {u : UInt64} (hu : u.toNat ≤ infinityBits) : (Float.ofBits u).toBits = u := by
  have hvalid : Format.binary64.Valid u.toBitVec := ⟨fun hx hz => absurd (unpackMantissa_eq_zero hu hx) hz⟩
  rw [Float.ofBits, Float.toBits, Float.Model.ofBits, Float.Model.pack]
  simp only [pack_unpack hvalid, UInt64.ofBitVec_toBitVec]

theorem toBits_ofMagnitude {bits : Nat} (hb : bits ≤ infinityBits) :
    (ofMagnitude false bits).toBits.toNat = bits := by
  have hlt : bits < 2 ^ 64 := Nat.lt_of_le_of_lt hb (by decide)
  have hu : (UInt64.ofNat bits).toNat = bits := UInt64.toNat_ofNat_of_lt' hlt
  rw [ofMagnitude, if_neg Bool.false_ne_true, toBits_ofBits (hu.symm ▸ hb), hu]

theorem isMagnitude_ofMagnitude {bits : Nat} (hb : bits ≤ infinityBits) : IsMagnitude (ofMagnitude false bits) := by
  have hbits := toBits_ofMagnitude hb
  generalize ofMagnitude false bits = x at hbits
  have hle : x.toBits.toNat ≤ infinityBits := hbits.symm ▸ hb
  have hzero : (0 : Float).toModel.unpack = .zero .positive := rfl
  have hunsigned : Unsigned x.toModel.unpack := unsigned_unpack hle
  refine ⟨?_, ?_, ?_⟩
  · rw [Float.isNaN, Float.Model.isNaN]
    generalize x.toModel.unpack = v at hunsigned
    cases v <;> trivial
  · change Float.le 0 x = true
    rw [Float.le]
    refine decide_eq_true ?_
    change Float.Model.le _ _ = true
    rw [Float.Model.le, hzero]
    generalize x.toModel.unpack = v at hunsigned
    rcases v with (_ | _) | _ | (_ | _) | (_ | _) <;> trivial
  · exact Nat.lt_of_le_of_lt hle (by decide)

/-! ## Reading -/

theorem nearestBits_le (num den : Nat) : nearestBits num den ≤ infinityBits := by
  unfold nearestBits
  split
  · exact Nat.zero_le _
  · extract_lets
    split
    exact Nat.min_le_left _ _

theorem isMagnitude_ofDecimal (digits : Nat) (exponent : Int) : IsMagnitude (ofDecimal false digits exponent) := by
  unfold ofDecimal
  simp only
  split_ifs
  · exact isMagnitude_ofMagnitude (Nat.zero_le _)
  · exact isMagnitude_ofMagnitude (Nat.le_refl _)
  · exact isMagnitude_ofMagnitude (nearestBits_le _ _)

theorem IsNumeral.isMagnitude {x : Float} (h : IsNumeral x) : IsMagnitude x := by
  obtain ⟨n, rfl⟩ := h.eq_ofDecimal
  exact isMagnitude_ofDecimal n 0

end RavenLang.Number
