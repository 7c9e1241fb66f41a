import Mathlib
import RavenLang.Number.Binary64

/-!
# Bit patterns of doubles

A double is its bit pattern: sign, exponent and fraction, put together again, give the
pattern back.
-/

namespace RavenLang.Number

open Float.Model Float.Model.UnpackedFloat

section
variable (b : BitVec 64)

theorem toNat_unpackMantissa : (@unpackMantissa .binary64 b).toNat = b.toNat % 2 ^ 52 := by
  simp [unpackMantissa]

theorem toNat_unpackExponent : (@unpackExponent .binary64 b).toNat = b.toNat / 2 ^ 52 % 2 ^ 11 := by
  simp [unpackExponent, BitVec.extractLsb_toNat, Nat.shiftRight_eq_div_pow]

theorem toNat_unpackSign : (@unpackSign .binary64 b).toNat = b.toNat / 2 ^ 63 := by
  have hb := b.isLt
  simp only [unpackSign, BitVec.toNat_cast, BitVec.extractLsb_toNat, Nat.shiftRight_eq_div_pow]
  omega

end

section
variable (s : Sign) (e : BitVec 11) (m : BitVec 52)

theorem toNat_packComponents :
    (packComponents .binary64 s e m).toNat = s.toBitVec.toNat * 2 ^ 63 + e.toNat * 2 ^ 52 + m.toNat := by
  have he := e.isLt
  have hm := m.isLt
  rw [packComponents, BitVec.toNat_append, BitVec.toNat_append]
  rw [← Nat.shiftLeft_add_eq_or_of_lt hm, ← Nat.shiftLeft_add_eq_or_of_lt he, Nat.shiftLeft_eq,
    Nat.shiftLeft_eq]
  omega

/-- A double below the least power of two that has all its digits. -/
theorem pack_subnormal (h : 0 < m.toNat) :
    UnpackedFloat.pack .binary64 (.finite s m.toNat (-1074) h) = packComponents .binary64 s 0 m := by
  have hlog : m.toNat.log2 < 52 := (Nat.log2_lt (Nat.ne_of_gt h)).2 m.isLt
  have hdigits : m.toNat.log2 + 1 ≠ Format.binary64.mantissaBits := by
    intro hd
    have h53 : m.toNat.log2 + 1 = 53 := hd
    omega
  rw [UnpackedFloat.pack, if_neg (by decide), if_neg hdigits, BitVec.ofNat_toNat, BitVec.setWidth_eq]
  rfl

theorem pack_normal (he : e.toNat < 2047) (h : 0 < 2 ^ 52 + m.toNat) :
    UnpackedFloat.pack .binary64 (.finite s (2 ^ 52 + m.toNat) (e.toNat - 1075) h) =
      packComponents .binary64 s e m := by
  have hm := m.isLt
  have hbiased : ((e.toNat : Int) - 1075 + Format.binary64.exponentBias +
      Format.binary64.mantissaBitsWithoutImplicit).toNat = e.toNat := by
    have hbias : (Format.binary64.exponentBias : Int) = 1023 := rfl
    have hwidth : (Format.binary64.mantissaBitsWithoutImplicit : Int) = 52 := rfl
    omega
  have hlog : (2 ^ 52 + m.toNat).log2 = 52 := (Nat.log2_eq_iff (Nat.ne_of_gt h)).2 ⟨by omega, by omega⟩
  have hfinite : ¬2 ^ Format.binary64.exponentBits ≤ e.toNat + 1 := by
    change ¬2048 ≤ e.toNat + 1
    omega
  have hfraction : BitVec.ofNat 52 (2 ^ 52 + m.toNat) = m := by
    apply BitVec.eq_of_toNat_eq
    rw [BitVec.toNat_ofNat]
    omega
  simp only [UnpackedFloat.pack, hbiased, hlog, hfraction]
  rw [if_neg hfinite, if_pos (by decide), BitVec.ofNat_toNat, BitVec.setWidth_eq]

end

theorem packComponents_unpack (b : BitVec 64) :
    packComponents .binary64 (.ofBitVec (@unpackSign .binary64 b)) (@unpackExponent .binary64 b)
      (@unpackMantissa .binary64 b) = b := by
  have hs : ∀ v : BitVec 1, (Sign.ofBitVec v).toBitVec = v := by decide
  apply BitVec.eq_of_toNat_eq
  rw [toNat_packComponents, hs, toNat_unpackSign, toNat_unpackExponent, toNat_unpackMantissa]
  omega

/-- Where NaN has one pattern only, patterns are taken apart and put together again. -/
theorem pack_unpack {b : BitVec 64} (h : Format.binary64.Valid b) :
    UnpackedFloat.pack .binary64 (UnpackedFloat.unpack .binary64 b) = b := by
  have hb := packComponents_unpack b
  unfold UnpackedFloat.unpack
  simp only []
  by_cases hx : @unpackExponent .binary64 b = -1#_
  · rw [if_pos hx]
    by_cases hz : @unpackMantissa .binary64 b = 0#_
    · rw [if_pos hz]
      rw [hx, hz] at hb
      exact hb
    · rw [if_neg hz]
      exact (h.eq_packedNaN hx hz).symm
  · rw [if_neg hx]
    by_cases hx0 : @unpackExponent .binary64 b = 0#_
    · rw [if_pos hx0]
      rw [hx0] at hb
      by_cases hz : @unpackMantissa .binary64 b = 0#_
      · rw [dif_pos hz]
        rw [hz] at hb
        exact hb
      · rw [dif_neg hz]
        rw [hx0]
        exact (pack_subnormal _ _ _).trans hb
    · rw [if_neg hx0]
      have hlt : (@unpackExponent .binary64 b).toNat < 2047 := by
        have he := (@unpackExponent .binary64 b).isLt
        have hne : (@unpackExponent .binary64 b).toNat ≠ 2047 := fun h => hx (BitVec.eq_of_toNat_eq h)
        change (@unpackExponent .binary64 b).toNat < 2048 at he
        omega
      have happ : (1#1 ++ @unpackMantissa .binary64 b).toNat =
          2 ^ 52 + (@unpackMantissa .binary64 b).toNat := by
        have hm := (@unpackMantissa .binary64 b).isLt
        rw [BitVec.toNat_append, ← Nat.shiftLeft_add_eq_or_of_lt hm]
        rfl
      simp only [happ]
      exact (pack_normal _ _ _ hlt _).trans hb

theorem ofBits_toBits (x : Float) : Float.ofBits x.toBits = x := by
  obtain ⟨bits, hvalid⟩ := x
  rw [Float.ofBits, Float.toBits, Float.Model.ofBits, Float.Model.pack]
  simp only [pack_unpack hvalid, UInt64.ofBitVec_toBitVec]

end RavenLang.Number
