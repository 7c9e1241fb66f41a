import RavenLang.Proofs.Number.Magnitude
import RavenLang.Proofs.Number.Whole

/-!
# Written numbers

A whole number is written with digits only, and no other number is written with the same digits: what the
digits say lies in the interval of reals that round to the number, and these intervals do not meet.
-/

namespace RavenLang.Number

/-! ## Decimals without a fraction -/

/-- What a decimal is worth whose exponent is not negative. -/
def Decimal.wholeValue (d : Decimal) : Nat := d.digits * 10 ^ d.exponent.toNat

theorem Decimal.trim_whole {d : Decimal} (h : 0 ≤ d.exponent) :
    0 ≤ d.trim.exponent ∧ d.trim.wholeValue = d.wholeValue := by
  fun_induction Decimal.trim d with
  | case1 d hz => exact ⟨Int.le_refl 0, by rw [wholeValue, wholeValue, hz, Nat.zero_mul, Nat.zero_mul]⟩
  | case2 d _ hten ih =>
    obtain ⟨he, hv⟩ := ih (Int.add_nonneg h (by decide))
    refine ⟨he, hv.trans ?_⟩
    have hexponent : (d.exponent + 1).toNat = d.exponent.toNat + 1 := by omega
    rw [wholeValue, wholeValue, hexponent, Nat.pow_succ', ← Nat.mul_assoc,
      Nat.div_mul_cancel (Nat.dvd_of_mod_eq_zero hten)]
  | case3 => exact ⟨h, rfl⟩

theorem digitsValue_append_zeros (ds : List Char) (k : Nat) :
    digitsValue (ds ++ List.replicate k '0') = digitsValue ds * 10 ^ k := by
  induction k with
  | zero => rw [List.replicate_zero, List.append_nil, Nat.pow_zero, Nat.mul_one]
  | succ k ih =>
    rw [List.replicate_succ', ← List.append_assoc, digitsValue, List.foldl_concat]
    change 10 * digitsValue (ds ++ List.replicate k '0') + 0 = _
    rw [ih, Nat.add_zero, Nat.pow_succ', Nat.mul_left_comm]

theorem positional_whole {d : Decimal} (h : 0 ≤ d.exponent) :
    IsDigits (positional false d) ∧ digitsValue (positional false d) = d.wholeValue := by
  have hp : positional false d = digitChars d.digits ++ List.replicate d.exponent.toNat '0' := by
    simp [positional, h]
  obtain ⟨hne, hd⟩ := isDigits_digitChars d.digits
  rw [hp, digitsValue_append_zeros, digitsValue_digitChars]
  refine ⟨⟨by simp [hne], fun c hc => ?_⟩, rfl⟩
  rcases List.mem_append.1 hc with hc | hc
  · exact hd c hc
  · rw [List.eq_of_mem_replicate hc]
    decide

/-! ## The interval around a whole number -/

namespace Interval

variable {i : Interval} {n v : Nat}

theorem contains_whole (i : Interval) (digits : Nat) {exponent : Int} (h : 0 ≤ exponent) :
    i.contains digits exponent = i.contains (digits * 10 ^ exponent.toNat) 0 := by
  have hneg : (-exponent).toNat = (-0 : Int).toNat := by omega
  have hone : tenTo (0 : Int).toNat = 1 := rfl
  simp only [contains, hneg, hone, Nat.mul_one]
  rfl

theorem contains_iff (i : Interval) (v : Nat) :
    i.contains v 0 = true ↔
      (i.centre - i.below) * i.num ≤ v * i.den ∧ v * i.den ≤ (i.centre + 2) * i.num ∧
        (i.closed = false → (i.centre - i.below) * i.num < v * i.den ∧ v * i.den < (i.centre + 2) * i.num) := by
  have hone : tenTo (0 : Int).toNat = 1 := rfl
  have hone' : tenTo (-0 : Int).toNat = 1 := rfl
  simp only [contains, hone, hone', Nat.mul_one]
  cases i.closed with
  | true => simp
  | false =>
    simp only [Bool.false_eq_true, if_false, Bool.and_eq_true, decide_eq_true_eq, forall_const]
    exact ⟨fun h => ⟨Nat.le_of_lt h.1, Nat.le_of_lt h.2, h⟩, fun h => h.2.2⟩

/-- The interval of a double that is the whole number `n`. -/
structure Centred (i : Interval) (n : Nat) : Prop where
  value : i.centre * i.num = n * i.den
  num_pos : 0 < i.num
  den_pos : 0 < i.den
  below_pos : 0 < i.below
  below_lt : i.below < i.centre
  centre_lt : i.centre < 2 ^ 55

/-- What is less than a quarter of the last place below is in the interval. -/
theorem Centred.contains_of_close (h : i.Centred n) (hle : v ≤ n) (hclose : (n - v) * i.den < i.num) :
    i.contains v 0 = true := by
  have hv := h.value
  have hnum := h.num_pos
  have hbelow : i.num ≤ i.below * i.num := Nat.le_mul_of_pos_left _ h.below_pos
  have hcentre : i.below * i.num ≤ i.centre * i.num := Nat.mul_le_mul_right _ (Nat.le_of_lt h.below_lt)
  have hden : v * i.den ≤ n * i.den := Nat.mul_le_mul_right _ hle
  have hlow : (i.centre - i.below) * i.num < v * i.den := by
    rw [Nat.sub_mul] at hclose ⊢
    omega
  have hhigh : v * i.den < (i.centre + 2) * i.num := by
    rw [Nat.add_mul]
    omega
  exact (i.contains_iff v).2 ⟨Nat.le_of_lt hlow, Nat.le_of_lt hhigh, fun _ => ⟨hlow, hhigh⟩⟩

theorem Centred.contains_self (h : i.Centred n) : i.contains n 0 = true :=
  h.contains_of_close (Nat.le_refl n) (by rw [Nat.sub_self, Nat.zero_mul]; exact h.num_pos)

theorem around_centred {m : Nat} {e : Int} (h : n * twoTo (-e).toNat = m * twoTo e.toNat) (hm : m ≠ 0)
    (hm' : m < 2 ^ 53) : (around m e).Centred n where
  value := by
    simp only [around, twoTo_eq] at h ⊢
    obtain he | rfl | he : 2 ≤ e ∨ e = 1 ∨ e ≤ 0 := by omega
    · obtain ⟨k, rfl⟩ := Int.le.dest he
      have h2 : (2 + (k : Int)).toNat = k + 2 := by omega
      have hk : (2 + (k : Int) - 2).toNat = k := by omega
      have h0 : (-(2 + (k : Int))).toNat = 0 := by omega
      have h0' : (2 - (2 + (k : Int))).toNat = 0 := by omega
      rw [h2, h0, Nat.pow_add] at h
      rw [hk, h0', h]
      ring
    · simp at h ⊢
      omega
    · have hk : (2 - e).toNat = (-e).toNat + 2 := by omega
      have h0 : (e - 2).toNat = 0 := by omega
      have h0' : e.toNat = 0 := by omega
      rw [h0'] at h
      rw [hk, h0, Nat.pow_add, ← Nat.mul_assoc, h]
      omega
  num_pos := Nat.two_pow_pos _
  den_pos := Nat.two_pow_pos _
  below_pos := by
    simp only [around]
    split <;> decide
  below_lt := by
    simp only [around]
    split <;> omega
  centre_lt := by
    simp only [around]
    omega

theorem contains_of_onGrid? {exponent : Int} {digits : Nat} (h : i.onGrid? exponent = some digits) :
    i.contains digits exponent = true := by
  unfold onGrid? at h
  simp only at h
  split at h <;> cases h
  · next hl hu => split <;> assumption
  · assumption
  · assumption

/-- A whole number is on the grid of the whole numbers. -/
theorem Centred.onGrid?_ne_none (h : i.Centred n) : i.onGrid? 0 ≠ none := by
  have hone : tenTo (0 : Int).toNat = 1 := rfl
  have hone' : tenTo (-0 : Int).toNat = 1 := rfl
  have hlower : i.centre * i.num * 1 / (i.den * 1) = n := by
    rw [Nat.mul_one, Nat.mul_one, h.value, Nat.mul_div_cancel n h.den_pos]
  unfold onGrid?
  simp only [hone, hone', hlower, h.contains_self]
  cases i.contains (n + 1) 0 <;> exact nofun

/-- The search ends among the whole numbers, within the interval: it does not go below the last digit, and
seventeen digits are precise enough. -/
theorem Centred.firstGrid_whole (h : i.Centred n) (k fuel : Nat)
    (hk : fuel ≤ k → 10 ^ (k - fuel) * 10 ^ 17 ≤ n) :
    0 ≤ (i.firstGrid k fuel).exponent ∧ i.contains (i.firstGrid k fuel).wholeValue 0 = true := by
  induction fuel generalizing k with
  | zero =>
    have hone : tenTo (-(k : Int)).toNat = 1 := by
      have h0 : (-(k : Int)).toNat = 0 := by omega
      rw [h0]
      rfl
    have hdigits : i.centre * i.num * 1 / (i.den * tenTo k) = n / 10 ^ k := by
      rw [Nat.mul_one, h.value, Nat.mul_comm n, Nat.mul_div_mul_left _ _ h.den_pos]
      rfl
    refine ⟨Int.natCast_nonneg k, ?_⟩
    rw [firstGrid, Decimal.wholeValue]
    simp only [Int.toNat_natCast, hone, hdigits]
    refine h.contains_of_close (Nat.div_mul_le_self n _) ?_
    rw [Nat.mul_comm (n / 10 ^ k), ← Nat.mod_eq_sub]
    have hrest : n % 10 ^ k * 10 ^ 17 < n :=
      Nat.lt_of_lt_of_le (Nat.mul_lt_mul_of_pos_right (Nat.mod_lt n (by positivity)) (by decide))
        (hk (Nat.zero_le k))
    refine Nat.lt_of_mul_lt_mul_right (a := 10 ^ 17) ?_
    calc n % 10 ^ k * i.den * 10 ^ 17 = n % 10 ^ k * 10 ^ 17 * i.den := Nat.mul_right_comm _ _ _
      _ < n * i.den := Nat.mul_lt_mul_of_pos_right hrest h.den_pos
      _ = i.centre * i.num := h.value.symm
      _ ≤ 10 ^ 17 * i.num := Nat.mul_le_mul_right _ (Nat.le_trans (Nat.le_of_lt h.centre_lt) (by decide))
      _ = i.num * 10 ^ 17 := Nat.mul_comm _ _
  | succ fuel ih =>
    rw [firstGrid]
    cases hg : i.onGrid? k with
    | some digits =>
      refine ⟨Int.natCast_nonneg k, ?_⟩
      rw [Decimal.wholeValue, ← i.contains_whole digits (Int.natCast_nonneg k)]
      exact contains_of_onGrid? hg
    | none =>
      cases k with
      | zero => exact absurd hg h.onGrid?_ne_none
      | succ k =>
        have hpred : ((k + 1 : Nat) : Int) - 1 = k := by omega
        simp only [hpred]
        exact ih k fun hle => by simpa using hk (Nat.succ_le_succ hle)

theorem Centred.leadingExponent_whole (h : i.Centred n) :
    ∃ k : Nat, leadingExponent (i.centre * i.num) i.den = k ∧ 10 ^ k ≤ n := by
  have hn : n ≠ 0 := by
    rintro rfl
    have hpos := Nat.mul_pos (Nat.lt_of_le_of_lt (Nat.zero_le _) h.below_lt) h.num_pos
    rw [h.value, Nat.zero_mul] at hpos
    exact absurd hpos (Nat.lt_irrefl 0)
  have hle : i.den ≤ n * i.den := Nat.le_mul_of_pos_left _ (Nat.pos_of_ne_zero hn)
  have hcount : 0 < digitCount n := by
    rw [digitCount, dif_neg hn]
    exact Nat.succ_pos _
  refine ⟨digitCount n - 1, ?_, Nat.le_of_not_lt fun hlt => ?_⟩
  · rw [leadingExponent, h.value, if_pos hle, Nat.mul_div_cancel n h.den_pos]
    omega
  · have := digitCount_le hlt
    omega

end Interval

theorem shortest_whole {n m : Nat} {e : Int} (h : n * twoTo (-e).toNat = m * twoTo e.toNat) (hm : m < 2 ^ 53) :
    0 ≤ (shortest m e).exponent ∧ (Interval.around m e).contains (shortest m e).wholeValue 0 = true := by
  rw [shortest]
  by_cases hz : m = 0
  · rw [if_pos hz, hz]
    exact ⟨Int.le_refl 0, ((Interval.around 0 e).contains_iff 0).2
      ⟨by simp [Interval.around], by simp, fun hc => by simp [Interval.around] at hc⟩⟩
  · have hc := Interval.around_centred h hz hm
    obtain ⟨k, hk, hn⟩ := hc.leadingExponent_whole
    obtain ⟨he, hin⟩ := hc.firstGrid_whole k 17 fun hle => by rwa [← Nat.pow_add, Nat.sub_add_cancel hle]
    obtain ⟨he', hv⟩ := Decimal.trim_whole he
    rw [if_neg hz]
    simp only [hk]
    exact ⟨he', hv ▸ hin⟩

/-! ## Intervals do not meet -/

namespace Interval

variable {i j : Interval} {v unit : Nat}

/-- Where two intervals meet, the lower end of one is not above the upper end of the other, and below it unless
both ends belong to them. -/
theorem lower_le_upper (hunit : j.num * i.den = unit * (i.num * j.den)) (hnum : 0 < i.num) (hden : 0 < i.den)
    (hden' : 0 < j.den) (hi : i.contains v 0 = true) (hj : j.contains v 0 = true) :
    (j.centre - j.below) * unit ≤ i.centre + 2 ∧
      (i.closed = false ∨ j.closed = false → (j.centre - j.below) * unit < i.centre + 2) := by
  obtain ⟨-, hhigh, hopen⟩ := (i.contains_iff v).1 hi
  obtain ⟨hlow, -, hopen'⟩ := (j.contains_iff v).1 hj
  have hlow_eq : (j.centre - j.below) * unit * (i.num * j.den) = (j.centre - j.below) * j.num * i.den := by
    rw [Nat.mul_assoc, ← hunit, Nat.mul_assoc]
  have hhigh_eq : (i.centre + 2) * (i.num * j.den) = (i.centre + 2) * i.num * j.den := (Nat.mul_assoc _ _ _).symm
  have hv : v * j.den * i.den = v * i.den * j.den := Nat.mul_right_comm _ _ _
  have hle : (j.centre - j.below) * j.num * i.den ≤ v * j.den * i.den := Nat.mul_le_mul_right _ hlow
  have hle' : v * i.den * j.den ≤ (i.centre + 2) * i.num * j.den := Nat.mul_le_mul_right _ hhigh
  have hpos : 0 < i.num * j.den := Nat.mul_pos hnum hden'
  constructor
  · refine Nat.le_of_mul_le_mul_right ?_ hpos
    omega
  · intro hclosed
    refine Nat.lt_of_mul_lt_mul_right (a := i.num * j.den) ?_
    obtain hc | hc := hclosed
    · have hlt : v * i.den * j.den < (i.centre + 2) * i.num * j.den :=
        Nat.mul_lt_mul_of_pos_right (hopen hc).2 hden'
      omega
    · have hlt : (j.centre - j.below) * j.num * i.den < v * j.den * i.den :=
        Nat.mul_lt_mul_of_pos_right (hopen' hc).1 hden
      omega

end Interval

/-- Mantissa and exponent as bit patterns hold them. -/
structure IsCanonical (mantissa : Nat) (exponent : Int) : Prop where
  mantissa_lt : mantissa < 2 ^ 53
  least_le : leastExponent ≤ exponent
  normal : 2 ^ 52 ≤ mantissa ∨ exponent = leastExponent

section
variable {m m' v : Nat} {e e' : Int}

theorem around_lower_le (k : Nat) (h : (Interval.around m e).contains v 0 = true)
    (h' : (Interval.around m' (e + k)).contains v 0 = true) :
    (4 * m' - (Interval.around m' (e + k)).below) * 2 ^ k ≤ 4 * m + 2 ∧
      (m % 2 = 1 ∨ m' % 2 = 1 → (4 * m' - (Interval.around m' (e + k)).below) * 2 ^ k < 4 * m + 2) := by
  have hunit : (Interval.around m' (e + k)).num * (Interval.around m e).den =
      2 ^ k * ((Interval.around m e).num * (Interval.around m' (e + k)).den) := by
    simp only [Interval.around, twoTo_eq, ← Nat.pow_add]
    congr 1
    omega
  obtain ⟨hle, hlt⟩ :=
    Interval.lower_le_upper hunit (Nat.two_pow_pos _) (Nat.two_pow_pos _) (Nat.two_pow_pos _) h h'
  refine ⟨hle, fun hodd => hlt ?_⟩
  simp only [Interval.around, decide_eq_false_iff_not]
  omega

/-- The lesser of two doubles has its interval below that of the other. -/
theorem not_contains_of_lt (hc : IsCanonical m e) (hc' : IsCanonical m' e') (hlt : e < e' ∨ e = e' ∧ m < m')
    (h : (Interval.around m e).contains v 0 = true) : (Interval.around m' e').contains v 0 ≠ true := by
  intro h'
  have hm := hc.mantissa_lt
  have hbelow : (Interval.around m' e').below ≤ 2 ∧
      (m' = 2 ^ 52 → leastExponent < e' → (Interval.around m' e').below = 1) :=
    ⟨by simp only [Interval.around]; split <;> decide, fun hm' he' => if_pos ⟨hm', he'⟩⟩
  obtain hlt | ⟨rfl, hlt⟩ := hlt
  · obtain ⟨k, rfl⟩ : ∃ k : Nat, e' = e + (k + 1 : Nat) := ⟨(e' - e - 1).toNat, by omega⟩
    obtain ⟨hle, hodd⟩ := around_lower_le (k + 1) h h'
    have hleast : leastExponent < e + (k + 1 : Nat) := by
      have := hc.least_le
      omega
    have hm' : 2 ^ 52 ≤ m' := hc'.normal.resolve_right (Int.ne_of_gt hleast)
    -- in the smaller unit the lower end is at least twice as large
    have htwice : (4 * m' - (Interval.around m' (e + (k + 1 : Nat))).below) * 2 ≤
        (4 * m' - (Interval.around m' (e + (k + 1 : Nat))).below) * 2 ^ (k + 1) :=
      Nat.mul_le_mul_left _ (Nat.le_self_pow (Nat.succ_ne_zero k) 2)
    obtain rfl | hm' := Nat.eq_or_lt_of_le hm'
    · have hone := hbelow.2 rfl hleast
      omega
    · omega
  · have h0 : e = e + (0 : Nat) := (Int.add_zero e).symm
    rw [h0] at h'
    obtain ⟨hle, hodd⟩ := around_lower_le 0 h h'
    rw [← h0, Nat.pow_zero, Nat.mul_one] at hle hodd
    omega

theorem canonical_unique (hc : IsCanonical m e) (hc' : IsCanonical m' e')
    (h : (Interval.around m e).contains v 0 = true) (h' : (Interval.around m' e').contains v 0 = true) :
    m = m' ∧ e = e' := by
  have hlt : ¬(e < e' ∨ e = e' ∧ m < m') := fun hlt => not_contains_of_lt hc hc' hlt h h'
  have hgt : ¬(e' < e ∨ e' = e ∧ m' < m) := fun hgt => not_contains_of_lt hc' hc hgt h' h
  omega

end

/-! ## Writing -/

section
variable {x y : Float} {m n : Nat} {e : Int}

theorem isCanonical_of_parts (h : Parts.ofFloat x = .finite false m e) : IsCanonical m e := by
  rcases Parts.ofBits_eq_finite x.toBits.toNat_lt h with ⟨-, hm, rfl⟩ | ⟨hm, hm', he, -, -⟩
  · exact ⟨Nat.lt_trans hm (by decide), Int.le_refl _, .inr rfl⟩
  · exact ⟨hm', he, .inl hm⟩

theorem eq_of_parts (hx : Parts.ofFloat x = .finite false m e) (hy : Parts.ofFloat y = .finite false m e) : x = y := by
  rw [← ofMagnitude_toBits x, ← ofMagnitude_toBits y]
  congr 1
  have hx := Parts.ofBits_eq_finite x.toBits.toNat_lt hx
  have hy := Parts.ofBits_eq_finite y.toBits.toNat_lt hy
  omega

theorem toList_write (h : Parts.ofFloat x = .finite false m e) :
    (write .plain x).toList = positional false (shortest m e) := by
  simp [write, h, Style.plain]

theorem IsWhole.isDigits_write (h : IsWhole x) : IsDigits (write .plain x).toList := by
  obtain ⟨n, m, e, hx, h⟩ := h
  rw [toList_write hx]
  exact (positional_whole (shortest_whole h (isCanonical_of_parts hx).mantissa_lt).1).1

/-- The digits that a whole number is written with are no other number's. -/
theorem IsWhole.write_inj (hx : IsWhole x) (hy : IsWhole y) (h : write .plain x = write .plain y) : x = y := by
  obtain ⟨n, m, e, hx, hn⟩ := hx
  obtain ⟨n', m', e', hy, hn'⟩ := hy
  have hc := isCanonical_of_parts hx
  have hc' := isCanonical_of_parts hy
  obtain ⟨he, hin⟩ := shortest_whole hn hc.mantissa_lt
  obtain ⟨he', hin'⟩ := shortest_whole hn' hc'.mantissa_lt
  have hvalue : (shortest m e).wholeValue = (shortest m' e').wholeValue := by
    rw [← (positional_whole he).2, ← (positional_whole he').2, ← toList_write hx, ← toList_write hy, h]
  rw [hvalue] at hin
  obtain ⟨rfl, rfl⟩ := canonical_unique hc hc' hin hin'
  exact eq_of_parts hx hy

end

/-! ## Reading -/

def IsFinite (x : Float) : Prop := ∃ negative mantissa exponent, Parts.ofFloat x = .finite negative mantissa exponent

instance (x : Float) : Decidable (IsFinite x) :=
  match h : Parts.ofFloat x with
  | .finite negative mantissa exponent => .isTrue ⟨negative, mantissa, exponent, h⟩
  | .nan | .infinite _ => .isFalse fun ⟨_, _, _, hx⟩ => by rw [h] at hx; cases hx

theorem Parts.negative_eq_false {bits m : Nat} {negative : Bool} {e : Int} (hb : bits < twoTo 63)
    (h : Parts.ofBits bits = .finite negative m e) : negative = false := by
  have hsign : decide (bits / twoTo 63 % 2 = 1) = false := by
    rw [Nat.div_eq_of_lt hb]
    rfl
  unfold Parts.ofBits at h
  simp only [hsign] at h
  split_ifs at h <;> exact (Parts.finite.inj h).1.symm

/-- Whole numbers of so many binary digits are rounded to whole units. -/
theorem one_le_unitExponent {n : Nat} (h : 2 ^ 53 ≤ n) : 1 ≤ unitExponent n 1 := by
  have hn : n ≠ 0 := by omega
  have hlog : 53 ≤ n.log2 := (Nat.le_log2 hn).2 h
  have hone : Nat.log2 1 = 0 := by decide
  have hguess : (n.log2 : Int) - (Nat.log2 1 : Nat) - 53 = (n.log2 - 53 : Nat) := by omega
  have hlarge : ¬n < 1 * twoTo (n.log2 - 53) * twoTo 53 := by
    rw [Nat.one_mul, twoTo_eq, twoTo_eq, ← Nat.pow_add, Nat.sub_add_cancel hlog, Nat.not_lt]
    exact Nat.log2_self_le hn
  unfold unitExponent
  simp only [hguess, scaleDown, Int.natCast_nonneg, if_true, Int.toNat_natCast, if_neg hlarge]
  omega

theorem le_nearestBits {n : Nat} (h : 2 ^ 53 ≤ n) : 1075 * twoTo 52 ≤ nearestBits n 1 := by
  have hunit := one_le_unitExponent h
  have hn : n ≠ 0 := by omega
  have hunits : 1075 ≤ (unitExponent n 1 - leastExponent).toNat := by
    rw [leastExponent]
    omega
  have hinfinity : 1075 * twoTo 52 ≤ infinityBits := by
    rw [infinityBits, twoTo_eq]
    norm_num
  unfold nearestBits
  rw [if_neg hn]
  extract_lets
  split
  exact Nat.le_min.2 ⟨hinfinity, Nat.le_trans (Nat.mul_le_mul_right _ hunits) (Nat.le_add_right _ _)⟩

/-- A whole number of at most 53 binary digits has its own bit pattern. -/
theorem exists_nearestBits_eq {n : Nat} (hn : n ≠ 0) (h : n < 2 ^ 53) :
    ∃ m e, n * twoTo (-e).toNat = m * twoTo e.toNat ∧ 2 ^ 52 ≤ m ∧ m < 2 ^ 53 ∧ leastExponent ≤ e ∧
      nearestBits n 1 = (e - leastExponent).toNat * twoTo 52 + m := by
  obtain ⟨k, hk⟩ : ∃ k, n.log2 + k = 52 := ⟨52 - n.log2, by have := (Nat.log2_lt hn).2 h; omega⟩
  have hvalue : n * twoTo (- -(k : Int)).toNat = n * 2 ^ k * twoTo (-(k : Int)).toNat := by
    rw [Int.neg_neg, Int.toNat_natCast, Int.toNat_neg_natCast, twoTo_eq, twoTo_eq, Nat.pow_zero, Nat.mul_one]
  have hlow : 2 ^ 52 ≤ n * 2 ^ k := by
    rw [← hk, Nat.pow_add]
    exact Nat.mul_le_mul_right _ (Nat.log2_self_le hn)
  have hhigh : n * 2 ^ k < 2 ^ 53 := by
    have hdigits : 2 ^ 53 = 2 ^ (n.log2 + 1) * 2 ^ k := by rw [← Nat.pow_add, Nat.add_right_comm, hk]
    rw [hdigits]
    exact Nat.mul_lt_mul_of_pos_right Nat.lt_log2_self (Nat.two_pow_pos k)
  have hleast : leastExponent ≤ -(k : Int) := by
    rw [leastExponent]
    omega
  exact ⟨_, _, hvalue, hlow, hhigh, hleast, nearestBits_whole hvalue hlow hhigh hleast (by omega)⟩

theorem isWhole_of_nearestBits {x : Float} {n : Nat} (h : IsFinite x) (hx : x.toBits.toNat = nearestBits n 1) :
    IsWhole x := by
  obtain ⟨negative, m, e, hp⟩ := h
  have hle := nearestBits_le n 1
  obtain rfl := Parts.negative_eq_false (hx ▸ Nat.lt_of_le_of_lt hle (by decide)) hp
  have hbits := Parts.ofBits_eq_finite x.toBits.toNat_lt hp
  rw [hx, twoTo_eq, leastExponent] at hbits
  obtain hsmall | hlarge := Nat.lt_or_ge n (2 ^ 53)
  · by_cases hn : n = 0
    · have hzero : nearestBits n 1 = 0 := if_pos hn
      obtain rfl : m = 0 := by omega
      exact ⟨0, 0, e, hp, by rw [Nat.zero_mul, Nat.zero_mul]⟩
    · obtain ⟨m', e', hvalue, hm, hm', he, hn⟩ := exists_nearestBits_eq hn hsmall
      rw [leastExponent] at he hn
      rw [twoTo_eq] at hn
      obtain ⟨rfl, rfl⟩ : m = m' ∧ e = e' := by omega
      exact ⟨n, m, e, hp, hvalue⟩
  · have hle := le_nearestBits hlarge
    rw [twoTo_eq] at hle
    have he : (-e).toNat = 0 := by omega
    exact ⟨m * twoTo e.toNat, m, e, hp, by rw [he, twoTo_eq 0, Nat.pow_zero, Nat.mul_one]⟩

/-- A numeral that is not too large is read as a whole number. -/
theorem IsNumeral.isWhole {x : Float} (h : IsNumeral x) (hx : IsFinite x) : IsWhole x := by
  obtain ⟨n, rfl⟩ := h.eq_ofDecimal
  unfold ofDecimal at hx ⊢
  simp only at hx ⊢
  split_ifs at hx ⊢ with hsmall hlarge
  · exact isWhole_of_nearestBits (n := 0) hx (toBits_ofMagnitude (Nat.zero_le _))
  · exact absurd hx (by decide +kernel)
  · have hone : tenTo (0 : Int).toNat = 1 := rfl
    rw [Int.neg_zero, hone, Nat.mul_one, ofRatio] at hx ⊢
    exact isWhole_of_nearestBits hx (toBits_ofMagnitude (nearestBits_le n 1))

end RavenLang.Number
