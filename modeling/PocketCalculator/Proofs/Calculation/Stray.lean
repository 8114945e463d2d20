import PocketCalculator.Proofs.Calculation.Drift

/-!
# When a value strays

Where the scaled values are at least `2 ^ 52` they are whole, and rounding to twelve places is
multiplying by `10 ^ 12` and dividing by it again. Both steps round, and a value need not come back.

Let `m` be the 53 bits of the value. The product has the bits of `m * 10 ^ 12`, of which 39 or 40
are rounded away. If it is 39, the error is less than half of what `10 ^ 12` makes of the last bit
of `m`, and the value comes back. If it is 40, the error may be up to `2 ^ 39`, which is a little
more than that half, `5 * 10 ^ 11`. So a value strays exactly if the 40 bits lie between
`5 * 10 ^ 11` and `2 ^ 40 - 5 * 10 ^ 11` (`nearestValue_scaled_back_iff`). The error is never just
the half, since it is divisible by `2 ^ 12`.
-/

namespace PocketCalculator

/-! ## The bits of a value -/

/-- The 53 bits of a value that is at least 1. -/
def significand (q : ℚ) : ℕ := ⌊|q| * 2 ^ 52 / 2 ^ Nat.log2 ⌊|q|⌋₊⌋₊

/-- Whether a number of 53 bits does not come back when it is multiplied by `10 ^ 12` and divided by
it again. -/
def IsMissed (m : ℕ) : Prop :=
  2 ^ 92 ≤ m * 10 ^ 12 ∧ 5 * 10 ^ 11 < m * 10 ^ 12 % 2 ^ 40 ∧
    m * 10 ^ 12 % 2 ^ 40 < 2 ^ 40 - 5 * 10 ^ 11

instance (m : ℕ) : Decidable (IsMissed m) :=
  inferInstanceAs (Decidable (_ ∧ _))

/-- Whether a value is changed when it is rounded to twelve places, because multiplying it and
dividing it again misses it: the scaled value is at least `2 ^ 52`, it does not overflow, and the
bits of the value are missed. -/
def Strays (q : ℚ) : Prop :=
  2 ^ 52 ≤ |q| * 10 ^ 12 ∧ (Binary64.ofRat (q * 10 ^ 12)).isFinite = true ∧
    IsMissed (significand q)

instance (q : ℚ) : Decidable (Strays q) :=
  inferInstanceAs (Decidable (_ ∧ _))

theorem Representable.exists_eq_mul_two_pow {v : ℚ} (hv : Representable v) (hlarge : 1 ≤ |v|) :
    ∃ m k : ℕ, 2 ^ 52 ≤ m ∧ m < 2 ^ 53 ∧ |v| = m * 2 ^ k / 2 ^ leastExponent := by
  obtain ⟨code, hcode⟩ := hv
  have hnormal : 4503599627370496 ≤ code := by
    by_contra hlt
    have hvalue : |v| < 1 := by
      rw [hcode, codeValue, unitsOfCode_of_le (by omega), div_lt_one unit_pos]
      calc (code : ℚ) < 4503599627370496 := by exact_mod_cast not_le.mp hlt
        _ = 2 ^ 52 := by norm_num
        _ ≤ 2 ^ leastExponent := pow_le_pow_right₀ one_le_two (by decide)
    exact absurd hlarge (not_le.mpr hvalue)
  obtain ⟨m, hlow, hhigh, heq⟩ := exists_eq_add_of_le hnormal
  refine ⟨m, codeDoublings code, by omega, by omega, ?_⟩
  rw [hcode, codeValue, heq, unitsOfCode_add (.inr hlow) hhigh.le, ← heq]
  push_cast
  rfl

/-- The bits of a value are 53, counted from the first one that is set. -/
theorem significand_eq {v : ℚ} {m e : ℕ} (hlow : 2 ^ 52 ≤ m) (hhigh : m < 2 ^ 53)
    (hv : |v| = m * 2 ^ e / 2 ^ 52) : significand v = m := by
  have hpow : (0 : ℚ) < 2 ^ e := by positivity
  have hlow' : (2 : ℚ) ^ 52 ≤ m := by exact_mod_cast hlow
  have hhigh' : (m : ℚ) < 2 ^ 53 := by exact_mod_cast hhigh
  have hfloor : 2 ^ e ≤ ⌊|v|⌋₊ := by
    refine Nat.le_floor ?_
    rw [hv, Nat.cast_pow, Nat.cast_ofNat, le_div_iff₀ (by positivity), mul_comm]
    exact mul_le_mul_of_nonneg_right hlow' hpow.le
  have hfloor' : ⌊|v|⌋₊ < 2 ^ (e + 1) := by
    rw [Nat.floor_lt (abs_nonneg v), hv, Nat.cast_pow, Nat.cast_ofNat, div_lt_iff₀ (by positivity)]
    calc (m * 2 ^ e : ℚ) < 2 ^ 53 * 2 ^ e := mul_lt_mul_of_pos_right hhigh' hpow
      _ = 2 ^ (e + 1) * 2 ^ 52 := by ring
  have hne : ⌊|v|⌋₊ ≠ 0 := (Nat.two_pow_pos e).trans_le hfloor |>.ne'
  rw [significand, (Nat.log2_eq_iff hne).mpr ⟨hfloor, hfloor'⟩, hv,
    div_mul_cancel₀ _ (by positivity), mul_div_cancel_right₀ _ hpow.ne', Nat.floor_natCast]

theorem Representable.eq_significand_mul {v : ℚ} (hv : Representable v) (hlarge : 1 ≤ |v|) :
    2 ^ 52 ≤ significand v ∧ significand v < 2 ^ 53 ∧
      ∃ k : ℕ, |v| = significand v * 2 ^ k / 2 ^ leastExponent := by
  obtain ⟨m, k, hlow, hhigh, hvalue⟩ := hv.exists_eq_mul_two_pow hlarge
  have hk : leastExponent ≤ k + 52 := by
    by_contra hlt
    have hpow : (2 : ℚ) ^ (k + 53) ≤ 2 ^ leastExponent := pow_le_pow_right₀ one_le_two (by omega)
    have hhigh' : (m : ℚ) < 2 ^ 53 := by exact_mod_cast hhigh
    have hsmall : |v| < 1 := by
      rw [hvalue, div_lt_one unit_pos]
      calc (m * 2 ^ k : ℚ) < 2 ^ 53 * 2 ^ k := mul_lt_mul_of_pos_right hhigh' (by positivity)
        _ = 2 ^ (k + 53) := by ring
        _ ≤ 2 ^ leastExponent := hpow
    exact absurd hlarge (not_le.mpr hsmall)
  obtain ⟨e, he⟩ := Nat.exists_eq_add_of_le hk
  have hvalue' : |v| = m * 2 ^ e / 2 ^ 52 := by
    rw [hvalue, div_eq_div_iff unit_pos.ne' (by positivity), mul_assoc, mul_assoc, ← pow_add, he,
      pow_add, mul_comm ((2 : ℚ) ^ e)]
  rw [significand_eq hlow hhigh hvalue']
  exact ⟨hlow, hhigh, k, hvalue⟩

/-! ## Multiplying and dividing -/

theorem nearestEven_div_bounds (w : ℕ) {d : ℕ} (hd : 0 < d) :
    2 * w ≤ 2 * (nearestEven (w / d) * d) + d ∧ 2 * (nearestEven (w / d) * d) ≤ 2 * w + d := by
  have hpos : (0 : ℚ) < d := Nat.cast_pos.mpr hd
  have herror := abs_sub_nearestEven_le (q := w / d) (by positivity)
  generalize nearestEven ((w : ℚ) / d) = n at herror
  obtain ⟨hlow, hhigh⟩ := abs_le.mp herror
  have hlow' : (n : ℚ) - 1 / 2 ≤ w / d := by linarith
  have hhigh' : (w / d : ℚ) ≤ n + 1 / 2 := by linarith
  rw [le_div_iff₀ hpos] at hlow'
  rw [div_le_iff₀ hpos] at hhigh'
  constructor
  · have : (2 * w : ℚ) ≤ 2 * (n * d) + d := by linarith
    exact_mod_cast this
  · have : (2 * (n * d) : ℚ) ≤ 2 * w + d := by linarith
    exact_mod_cast this

/-- When a product divided by `10 ^ 12` is rounded to a number, unless it is just halfway. -/
theorem nearestEven_div_ten_pow_eq_iff {a m : ℕ} (habove : a ≠ m * 10 ^ 12 + 5 * 10 ^ 11)
    (hbelow : m * 10 ^ 12 ≠ a + 5 * 10 ^ 11) :
    nearestEven (a / 10 ^ 12) = m ↔
      a < m * 10 ^ 12 + 5 * 10 ^ 11 ∧ m * 10 ^ 12 < a + 5 * 10 ^ 11 := by
  constructor
  · intro hrounded
    have hbounds := nearestEven_div_bounds a (d := 10 ^ 12) (by norm_num)
    rw [Nat.cast_pow, Nat.cast_ofNat, hrounded] at hbounds
    omega
  · rintro ⟨hhigh, hlow⟩
    refine nearestEven_eq_of_abs_sub_lt (by positivity) ?_
    have hhigh' : (a : ℚ) < m * 10 ^ 12 + 5 * 10 ^ 11 := by exact_mod_cast hhigh
    have hlow' : (m * 10 ^ 12 : ℚ) < a + 5 * 10 ^ 11 := by exact_mod_cast hlow
    rw [abs_lt]
    constructor
    · rw [lt_sub_iff_add_lt, lt_div_iff₀ (by positivity)]
      linarith
    · rw [sub_lt_iff_lt_add, div_lt_iff₀ (by positivity)]
      linarith

/-- The product of a value by `10 ^ 12` loses `d` bits, if it has `d` bits too many. -/
theorem nearestValue_scaled (m : ℕ) {d : ℕ} (hlow : 2 ^ 52 * 2 ^ d ≤ m * 10 ^ 12)
    (hhigh : m * 10 ^ 12 < 2 ^ 53 * 2 ^ d) (k : ℕ) :
    nearestValue (m * 2 ^ k / 2 ^ leastExponent * 10 ^ 12) =
      nearestEven ((m * 10 ^ 12 : ℕ) / (2 ^ d : ℕ)) * 2 ^ d * 2 ^ k / 2 ^ leastExponent := by
  have hpow : (0 : ℚ) < (2 ^ d : ℕ) := by positivity
  have hlow' : (2 : ℚ) ^ 52 ≤ (m * 10 ^ 12 : ℕ) / (2 ^ d : ℕ) := by
    rw [le_div_iff₀ hpow]
    exact_mod_cast hlow
  have hhigh' : ((m * 10 ^ 12 : ℕ) / (2 ^ d : ℕ) : ℚ) < 2 ^ 53 := by
    rw [div_lt_iff₀ hpow]
    exact_mod_cast hhigh
  have hscaled : (m * 2 ^ k / 2 ^ leastExponent * 10 ^ 12 : ℚ) =
      ((m * 10 ^ 12 : ℕ) / (2 ^ d : ℕ)) * 2 ^ (d + k) / 2 ^ leastExponent := by
    rw [Nat.cast_mul, Nat.cast_pow, Nat.cast_pow, Nat.cast_ofNat, Nat.cast_ofNat, pow_add]
    field_simp
  rw [hscaled, nearestValue_mul_two_pow hlow' hhigh', pow_add]
  ring

/-- The quotient of a product by `10 ^ 12` is rounded to 53 bits. -/
theorem nearestValue_quotient_eq_iff {a : ℕ} (hlow : 2 ^ 52 * 10 ^ 12 ≤ a)
    (hhigh : a < 2 ^ 53 * 10 ^ 12) (m k : ℕ) :
    nearestValue (a * 2 ^ k / 2 ^ leastExponent / 10 ^ 12) = m * 2 ^ k / 2 ^ leastExponent ↔
      nearestEven (a / 10 ^ 12) = m := by
  have hlow' : (2 : ℚ) ^ 52 ≤ a / 10 ^ 12 := by
    rw [le_div_iff₀ (by positivity)]
    exact_mod_cast hlow
  have hhigh' : (a / 10 ^ 12 : ℚ) < 2 ^ 53 := by
    rw [div_lt_iff₀ (by positivity)]
    exact_mod_cast hhigh
  have hquotient : (a * 2 ^ k / 2 ^ leastExponent / 10 ^ 12 : ℚ) =
      a / 10 ^ 12 * 2 ^ k / 2 ^ leastExponent := by
    ring
  have hpow : (2 : ℚ) ^ k ≠ 0 := by positivity
  rw [hquotient, nearestValue_mul_two_pow hlow' hhigh', div_left_inj' unit_pos.ne',
    mul_left_inj' hpow, Nat.cast_inj]

/-- **Scaling up and back.** A value comes back exactly if its bits are not missed. -/
theorem nearestValue_scaled_back_iff {m : ℕ} (hlow : 2 ^ 52 ≤ m) (hhigh : m < 2 ^ 53) (k : ℕ) :
    nearestValue (nearestValue (m * 2 ^ k / 2 ^ leastExponent * 10 ^ 12) / 10 ^ 12) =
        m * 2 ^ k / 2 ^ leastExponent ↔ ¬ IsMissed m := by
  by_cases hbits : 2 ^ 92 ≤ m * 10 ^ 12
  · have hbounds := nearestEven_div_bounds (m * 10 ^ 12) (Nat.two_pow_pos 40)
    rw [nearestValue_scaled m (d := 40) (by omega) (by omega)]
    generalize nearestEven (((m * 10 ^ 12 : ℕ) : ℚ) / (2 ^ 40 : ℕ)) = n at hbounds
    have hcast : (n * 2 ^ 40 : ℚ) = (n * 2 ^ 40 : ℕ) := by push_cast; rfl
    rw [hcast, nearestValue_quotient_eq_iff (by omega) (by omega),
      nearestEven_div_ten_pow_eq_iff (by omega) (by omega), IsMissed]
    -- the error is not just half of what `10 ^ 12` makes of the last bit
    have hfactor : m * 10 ^ 12 % 2 ^ 12 = 0 := by omega
    obtain ⟨product, hproduct⟩ : ∃ product, m * 10 ^ 12 = product := ⟨_, rfl⟩
    rw [hproduct] at hbits hbounds hfactor ⊢
    clear hproduct
    omega
  · have hbounds := nearestEven_div_bounds (m * 10 ^ 12) (Nat.two_pow_pos 39)
    rw [nearestValue_scaled m (d := 39) (by omega) (by omega)]
    generalize nearestEven (((m * 10 ^ 12 : ℕ) : ℚ) / (2 ^ 39 : ℕ)) = n at hbounds
    have hcast : (n * 2 ^ 39 : ℚ) = (n * 2 ^ 39 : ℕ) := by push_cast; rfl
    rw [hcast, nearestValue_quotient_eq_iff (by omega) (by omega),
      nearestEven_div_ten_pow_eq_iff (by omega) (by omega), IsMissed]
    omega

/-! ## Values that stray -/

section

variable {v : ℚ}

/-- Where the scaled values are whole, rounding misses exactly the values whose bits are missed. -/
theorem roundedQuotient_eq_iff_of_le (hv : Representable v) (hlarge : 2 ^ 52 ≤ |v| * 10 ^ 12) :
    roundedQuotient (10 ^ 12) v = v ↔ ¬ IsMissed (significand v) := by
  obtain ⟨hlow, hhigh, k, hvalue⟩ := hv.eq_significand_mul (by linarith)
  rw [← nearestValue_scaled_back_iff hlow hhigh k, ← hvalue,
    roundedQuotient_eq_nearestValue hv hlarge]
  -- both roundings change sign with the value
  rcases abs_choice v with hpos | hneg
  · rw [hpos]
  · rw [hneg, neg_mul, nearestValue_neg, neg_div, nearestValue_neg, neg_inj]

/-- **Rounding what has twelve places.** A value nearest to a whole number of units, where scaling
it does not overflow, is left as it is exactly if it neither drifts nor strays. -/
theorem roundedQuotient_nearestValue_eq_iff {n : ℤ} (hv : nearestValue (n / 10 ^ 12) = v)
    (hfinite : 4096 ≤ |v| → (Binary64.ofRat (v * 10 ^ 12)).isFinite = true) :
    roundedQuotient (10 ^ 12) v = v ↔ ¬ Drifts v ∧ ¬ Strays v := by
  rcases lt_or_ge (|v| * 10 ^ 12) (2 ^ 52) with hsmall | hlarge
  · have hn : Representable n := by
      have hnear := abs_lt.mp (abs_mul_sub_lt_half hv hsmall)
      have hbound := abs_lt.mp (abs_mul_ten_pow v ▸ hsmall)
      refine representable_intCast (abs_le.mpr ⟨?_, ?_⟩)
      · have : ((-2 ^ 53 : ℤ) : ℚ) ≤ n := by push_cast; linarith
        exact Int.cast_le.mp this
      · have : (n : ℚ) ≤ (2 ^ 53 : ℤ) := by push_cast; linarith
        exact Int.cast_le.mp this
    rw [roundedQuotient_eq_iff hn hv, iff_self_and]
    exact fun _ hstrays ↦ not_lt.mpr hstrays.1 hsmall
  · have hdrifts : ¬ Drifts v := fun hdrifts ↦ not_lt.mpr hlarge hdrifts.2.1
    have hstrays : Strays v ↔ IsMissed (significand v) := by
      rw [Strays, and_iff_right hlarge, and_iff_right (hfinite (by linarith))]
    rw [roundedQuotient_eq_iff_of_le (hv ▸ representable_nearestValue _) hlarge, hstrays,
      and_iff_right hdrifts]

theorem not_drifts_and_not_strays_of_lt (hsmall : |v| < 4096) : ¬ Drifts v ∧ ¬ Strays v :=
  ⟨fun hdrifts ↦ not_le.mpr hsmall hdrifts.1, fun hstrays ↦ by linarith [hstrays.1]⟩

theorem not_drifts_of_abs_eq_natCast {n : ℕ} (hv : |v| = n) : ¬ Drifts v := by
  rintro ⟨-, -, hquarter, -⟩
  obtain ⟨k, hk⟩ : ∃ k : ℤ, v = k := by
    rcases abs_choice v with hpos | hneg
    · exact ⟨n, by rw [← hpos, hv, Int.cast_natCast]⟩
    · exact ⟨-n, by rw [← neg_neg v, ← hneg, hv, Int.cast_neg, Int.cast_natCast]⟩
  have hscaled : v * 10 ^ 12 = (k * 10 ^ 12 : ℤ) := by
    rw [hk]
    push_cast
    rfl
  rw [hscaled, Int.fract_intCast] at hquarter
  linarith

/-- The bits of a whole number of few bits are its own, and zeros after them. -/
theorem significand_of_abs_eq_natCast {n e : ℕ} (hv : |v| = n) (hlow : 2 ^ e ≤ n)
    (hhigh : n < 2 ^ (e + 1)) (he : e ≤ 52) : significand v = n * 2 ^ (52 - e) := by
  have hpow : 2 ^ e * 2 ^ (52 - e) = 2 ^ 52 := by rw [← pow_add, Nat.add_sub_of_le he]
  refine significand_eq (e := e) ?_ ?_ ?_
  · rw [← hpow]
    exact Nat.mul_le_mul_right _ hlow
  · calc n * 2 ^ (52 - e) < 2 ^ (e + 1) * 2 ^ (52 - e) :=
          Nat.mul_lt_mul_of_pos_right hhigh (Nat.two_pow_pos _)
      _ = 2 ^ 53 := by rw [pow_succ, mul_right_comm, hpow, ← pow_succ]
  · rw [hv, Nat.cast_mul, mul_assoc, Nat.cast_pow, Nat.cast_ofNat, mul_comm ((2 : ℚ) ^ _),
      ← pow_add, Nat.add_sub_of_le he, mul_div_cancel_right₀ _ (by positivity)]

/-- A product by `10 ^ 12` of at most 25 bits and zeros after them loses none of its bits. -/
theorem not_isMissed_mul_two_pow {n e : ℕ} (he : e ≤ 24) : ¬ IsMissed (n * 2 ^ (52 - e)) := by
  rintro ⟨-, hlost, -⟩
  have hsplit : 52 - e = (24 - e) + 28 := by omega
  have hfactor : n * 2 ^ (52 - e) * 10 ^ 12 = n * 2 ^ (24 - e) * 5 ^ 12 * 2 ^ 40 := by
    rw [hsplit, pow_add]
    ring
  rw [hfactor, Nat.mul_mod_left] at hlost
  omega

theorem not_strays_of_abs_eq_natCast {n : ℕ} (hv : |v| = n) (hn : n < 2 ^ 25) : ¬ Strays v := by
  rintro ⟨hlarge, -, hmissed⟩
  have hne : n ≠ 0 := by
    rintro rfl
    rw [hv] at hlarge
    norm_num at hlarge
  obtain ⟨hlow, hhigh⟩ := (Nat.log2_eq_iff hne).mp rfl
  have he : n.log2 ≤ 24 := Nat.lt_succ_iff.mp ((Nat.log2_lt hne).mpr hn)
  rw [significand_of_abs_eq_natCast hv hlow hhigh (he.trans (by norm_num))] at hmissed
  exact not_isMissed_mul_two_pow he hmissed

end

end PocketCalculator
