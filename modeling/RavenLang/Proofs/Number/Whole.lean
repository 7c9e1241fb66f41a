import RavenLang.Proofs.Number.Bits
import RavenLang.Proofs.Number.Digits

/-!
# Whole numbers

A double that is a whole number is read back from the decimal digits of that number,
however large it is.
-/

namespace RavenLang.Number

/-- The double is finite, without a sign, and a whole number. -/
def IsWhole (x : Float) : Prop :=
  ∃ n mantissa exponent, Parts.ofFloat x = .finite false mantissa exponent ∧
    n * twoTo (-exponent).toNat = mantissa * twoTo exponent.toNat

def wholePart (x : Float) : Nat :=
  match Parts.ofFloat x with
  | .finite _ mantissa exponent => mantissa * twoTo exponent.toNat / twoTo (-exponent).toNat
  | _ => 0

/-- All digits of a whole number. -/
def decimal (x : Float) : String := .ofList (digitChars (wholePart x))

/-! ## Digits -/

theorem twoTo_eq (n : Nat) : twoTo n = 2 ^ n := rfl

theorem digitsValue_digitChars (n : Nat) : digitsValue (digitChars n) = n := by
  rw [digitsValue, digitChars, ← Nat.ofDigitChars_eq_foldl]
  exact Nat.ofDigitChars_ten_toDigits

theorem isDigits_digitChars (n : Nat) : IsDigits (digitChars n) :=
  ⟨Nat.toDigits_ne_nil, fun _ hc => Nat.isDigit_of_mem_toDigits (by decide) (by decide) hc⟩

theorem digitCount_le {n k : Nat} (h : n < 10 ^ k) : digitCount n ≤ k := by
  induction k generalizing n with
  | zero =>
    obtain rfl : n = 0 := Nat.lt_one_iff.1 h
    rw [digitCount]
    exact Nat.le_refl 0
  | succ k ih =>
    rw [digitCount]
    split
    · exact Nat.zero_le _
    · have hn : n / 10 < 10 ^ k := Nat.div_lt_of_lt_mul (by rwa [Nat.pow_succ, Nat.mul_comm] at h)
      exact Nat.succ_le_succ (ih hn)

/-! ## Rounding what needs no rounding -/

theorem nearestQuotient_exact (q : Nat) {den : Nat} (h : 0 < den) : nearestQuotient (q * den) den = q := by
  unfold nearestQuotient
  simp only [Nat.mul_div_cancel q h, Nat.mul_mod_left]
  rw [if_neg]
  omega

theorem scaleDown_exact {n q : Nat} {e : Int} (h : n * twoTo (-e).toNat = q * twoTo e.toNat) :
    ∃ den, 0 < den ∧ scaleDown n 1 e = (q * den, den) := by
  unfold scaleDown
  by_cases he : 0 ≤ e
  · rw [if_pos he]
    rw [Int.toNat_of_nonpos (by omega), twoTo_eq, Nat.pow_zero, Nat.mul_one] at h
    exact ⟨twoTo e.toNat, Nat.two_pow_pos _, by rw [h, Nat.one_mul]⟩
  · rw [if_neg he]
    rw [Int.toNat_of_nonpos (by omega : e ≤ 0), twoTo_eq 0, Nat.pow_zero, Nat.mul_one] at h
    exact ⟨1, Nat.one_pos, by rw [h, Nat.mul_one]⟩

theorem log2_mul {n a : Nat} (hn : n ≠ 0) (k : Nat) (h : n * 2 ^ k = a) : a.log2 = n.log2 + k := by
  have ha : a ≠ 0 := by
    rw [← h]
    exact Nat.mul_ne_zero hn (Nat.ne_of_gt (Nat.two_pow_pos k))
  have hlow := Nat.mul_le_mul_right (2 ^ k) (Nat.log2_self_le hn)
  have hhigh := Nat.mul_lt_mul_of_pos_right (Nat.lt_log2_self (n := n)) (Nat.two_pow_pos k)
  refine (Nat.log2_eq_iff ha).2 ⟨?_, ?_⟩
  · rwa [← Nat.pow_add, h] at hlow
  · rwa [← Nat.pow_add, h, Nat.add_right_comm] at hhigh

section
variable {n m : Nat} {e : Int} (h : n * twoTo (-e).toNat = m * twoTo e.toNat) (hm : 2 ^ 52 ≤ m)
    (hm' : m < 2 ^ 53)

include h hm

theorem whole_ne_zero : n ≠ 0 := by
  intro hn
  rw [hn, Nat.zero_mul] at h
  have hpos := Nat.mul_pos (Nat.lt_of_lt_of_le (Nat.two_pow_pos 52) hm) (Nat.two_pow_pos e.toNat)
  exact absurd h (Nat.ne_of_lt hpos)

include hm'

theorem log2_whole : (n.log2 : Int) = 52 + e := by
  have hlog : m.log2 = 52 := (Nat.log2_eq_iff (by omega)).2 ⟨hm, hm'⟩
  have hleft := log2_mul (whole_ne_zero h hm) (-e).toNat h
  have hright := log2_mul (n := m) (by omega) e.toNat rfl
  rw [twoTo_eq, hright] at hleft
  omega

theorem unitExponent_whole (he : leastExponent ≤ e) : unitExponent n 1 = e := by
  have hlog := log2_whole h hm hm'
  have hguess : (n.log2 : Int) - (Nat.log2 1 : Nat) - 53 = e - 1 := by
    have hone : Nat.log2 1 = 0 := by decide
    omega
  -- in half the unit the mantissa is twice as large
  have h' : n * twoTo (-(e - 1)).toNat = 2 * m * twoTo (e - 1).toNat := by
    rw [twoTo_eq, twoTo_eq] at h ⊢
    by_cases hpos : 1 ≤ e
    · have hup : e.toNat = (e - 1).toNat + 1 := by omega
      have hdown : (-(e - 1)).toNat = (-e).toNat := by omega
      rw [hdown, h, hup, Nat.pow_succ, Nat.mul_comm _ 2, ← Nat.mul_assoc, Nat.mul_comm m 2]
    · have hup : (e - 1).toNat = e.toNat := by omega
      have hdown : (-(e - 1)).toNat = (-e).toNat + 1 := by omega
      rw [hup, hdown, Nat.pow_succ, ← Nat.mul_assoc, h, Nat.mul_comm _ 2, Nat.mul_assoc]
  obtain ⟨den, hden, hscale⟩ := scaleDown_exact h'
  unfold unitExponent
  simp only [hguess, hscale]
  have hlarge : ¬2 * m * den < den * twoTo 53 := by
    rw [twoTo_eq, Nat.mul_comm den, Nat.not_lt]
    exact Nat.mul_le_mul_right den (by omega)
  rw [if_neg hlarge]
  omega

theorem nearestBits_whole (he : leastExponent ≤ e) (he' : e ≤ 971) :
    nearestBits n 1 = (e - leastExponent).toNat * twoTo 52 + m := by
  obtain ⟨den, hden, hscale⟩ := scaleDown_exact h
  have hfinite : (e - leastExponent).toNat * twoTo 52 + m ≤ infinityBits := by
    rw [twoTo_eq, leastExponent, infinityBits]
    omega
  unfold nearestBits
  rw [if_neg (whole_ne_zero h hm), unitExponent_whole h hm hm' he]
  simp only [hscale, nearestQuotient_exact m hden]
  exact Nat.min_eq_right hfinite

end

/-! ## Reading -/

/-- A double without a sign: below the least power of two with all digits, or with 53 digits. -/
theorem Parts.ofBits_eq_finite {bits m : Nat} {e : Int} (hbits : bits < 2 ^ 64)
    (h : Parts.ofBits bits = .finite false m e) :
    (bits = m ∧ m < 2 ^ 52 ∧ e = leastExponent) ∨
      (2 ^ 52 ≤ m ∧ m < 2 ^ 53 ∧ leastExponent ≤ e ∧ e ≤ 971 ∧
        bits = (e - leastExponent).toNat * twoTo 52 + m) := by
  unfold Parts.ofBits at h
  by_cases hx : bits / twoTo 52 % twoTo 11 = 2047
  · simp only [if_pos hx] at h
    split at h <;> cases h
  · simp only [if_neg hx] at h
    split at h
    · next hx0 =>
      obtain ⟨hs, rfl, rfl⟩ := Parts.finite.inj h
      have hsign := of_decide_eq_false hs
      simp only [twoTo_eq] at hx0 hsign ⊢
      refine .inl ⟨?_, ?_, trivial⟩ <;> omega
    · next hx0 =>
      obtain ⟨hs, rfl, rfl⟩ := Parts.finite.inj h
      have hsign := of_decide_eq_false hs
      simp only [twoTo_eq, leastExponent] at hx hx0 hsign ⊢
      refine .inr ⟨?_, ?_, ?_, ?_, ?_⟩ <;> omega

theorem ofMagnitude_toBits (x : Float) : ofMagnitude false x.toBits.toNat = x := by
  rw [ofMagnitude, if_neg Bool.false_ne_true, UInt64.ofNat_toNat, ofBits_toBits]

theorem IsWhole.wholePart_eq {x : Float} {n m : Nat} {e : Int} (hx : Parts.ofFloat x = .finite false m e)
    (h : n * twoTo (-e).toNat = m * twoTo e.toNat) : wholePart x = n := by
  rw [wholePart, hx]
  simp only
  rw [← h]
  exact Nat.mul_div_cancel n (Nat.two_pow_pos _)

theorem ofDecimal_wholePart {x : Float} (h : IsWhole x) : ofDecimal false (wholePart x) 0 = x := by
  obtain ⟨n, m, e, hx, h⟩ := h
  rw [IsWhole.wholePart_eq hx h]
  have hbits := x.toBits.toNat_lt
  rcases Parts.ofBits_eq_finite hbits hx with ⟨hb, hm, rfl⟩ | ⟨hm, hm', he, he', hb⟩
  · -- too small to be a whole number other than zero
    have hzero : twoTo leastExponent.toNat = 1 := rfl
    rw [hzero, Nat.mul_one] at h
    have hn : n = 0 := by
      rcases Nat.eq_zero_or_pos n with hn | hn
      · exact hn
      · have hunit : 2 ^ 52 ≤ 2 ^ (-leastExponent).toNat := Nat.pow_le_pow_right (by decide) (by decide)
        have hlow := Nat.le_trans hunit (Nat.le_mul_of_pos_left _ hn)
        rw [← twoTo_eq (-leastExponent).toNat, h] at hlow
        exact absurd hm (Nat.not_lt.2 hlow)
    rw [hn, Nat.zero_mul] at h
    rw [hn, ofDecimal, if_pos (.inl rfl), ← ofMagnitude_toBits x, hb, ← h]
  · have hsmall : n < 10 ^ 400 := by
      calc n ≤ m * twoTo e.toNat := h ▸ Nat.le_mul_of_pos_right n (Nat.two_pow_pos _)
        _ < 2 ^ 53 * twoTo e.toNat := Nat.mul_lt_mul_of_pos_right hm' (Nat.two_pow_pos _)
        _ ≤ 2 ^ 53 * 2 ^ 971 := Nat.mul_le_mul_left _ (Nat.pow_le_pow_right (by decide) (by omega))
        _ ≤ 10 ^ 400 := by decide +kernel
    have hcount := digitCount_le hsmall
    have hone : tenTo (0 : Int).toNat = 1 := rfl
    have hlow : ¬(n = 0 ∨ (0 : Int) + digitCount n < -400) := by
      have hn := whole_ne_zero h hm
      omega
    have hhigh : ¬(400 < (0 : Int) + digitCount n) := by omega
    unfold ofDecimal
    simp only [if_neg hlow, if_neg hhigh]
    rw [Int.neg_zero, hone, Nat.mul_one, ofRatio, nearestBits_whole h hm hm' he he', ← hb, ofMagnitude_toBits]

theorem isDigits_decimal (x : Float) : IsDigits (decimal x).toList := by
  rw [decimal, String.toList_ofList]
  exact isDigits_digitChars _

theorem read?_decimal {x : Float} (h : IsWhole x) : read? (decimal x) = some x := by
  rw [read?_of_isDigits (isDigits_decimal x), decimal, String.toList_ofList, digitsValue_digitChars]
  rw [ofDecimal_wholePart h]

end RavenLang.Number
