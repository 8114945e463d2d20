import PocketCalculator.Proofs.Calculation.Places

/-!
# When a rounded value drifts

A value that was rounded to twelve decimal places is the nearest value to a whole number of units of
`10 ^ -12`. Rounding it again should find the same whole number. How far the value is from that
number of units depends on the spacing of the values around it:

* Below 4096 the spacing is at most `2 ^ -41`, and the value is less than a quarter of a unit away.
  Neither raising it nor scaling it brings it half a unit away.
* From 4096 on, raising does nothing, and the value may be almost half a unit away. Scaled, it is
  rounded to a multiple of a half. If it lies more than a quarter of a unit above the whole number
  it is rounded to the point halfway to the next one, and from there up to the next one: the value
  drifts upward.
* Where the scaled values are at least `2 ^ 52`, they are whole already, and the value is the
  quotient of a value that it is scaled back to.

So the values that drift are known exactly (`roundedQuotient_eq_iff`).
-/

namespace PocketCalculator

/-- Whether a value that has been rounded to twelve places is changed when it is rounded again: it
is at least 4096, the scaled value is below `2 ^ 52`, and the part of that after the point is
between a quarter and a half. -/
def Drifts (q : ℚ) : Prop :=
  4096 ≤ |q| ∧ |q| * 10 ^ 12 < 2 ^ 52 ∧
    1 / 4 < Int.fract (q * 10 ^ 12) ∧ Int.fract (q * 10 ^ 12) < 1 / 2

instance (q : ℚ) : Decidable (Drifts q) :=
  inferInstanceAs (Decidable (_ ∧ _))

theorem abs_mul_ten_pow (q : ℚ) : |q * 10 ^ 12| = |q| * 10 ^ 12 := by
  rw [abs_mul, abs_of_pos (by positivity : (0 : ℚ) < 10 ^ 12)]

/-! ## Around a whole number -/

theorem round_eq_of_abs_sub_lt {q : ℚ} {n : ℤ} (h : |q - n| < 1 / 2) : round q = n := by
  obtain ⟨hlow, hhigh⟩ := abs_lt.mp h
  exact round_eq_iff.mpr ⟨by linarith, by linarith⟩

/-- A quarter above a whole number of 52 bits is halfway between two values, of which the whole
number is the even one. -/
theorem nearestValue_add_quarter {n : ℤ} (hlow : 2 ^ 51 ≤ |(n + 1 / 4 : ℚ)|)
    (hhigh : |(n + 1 / 4 : ℚ)| < 2 ^ 52) : nearestValue (n + 1 / 4) = n := by
  rcases le_or_gt 0 n with hn | hn
  · obtain ⟨m, rfl⟩ := Int.eq_ofNat_of_zero_le hn
    have hm : (0 : ℚ) ≤ m := Nat.cast_nonneg m
    rw [Int.cast_natCast] at hlow hhigh ⊢
    rw [abs_of_nonneg (by linarith)] at hlow hhigh
    have hscaled : (m + 1 / 4 : ℚ) * 2 ^ 1 = (2 * m : ℕ) + 1 / 2 := by push_cast; ring
    rw [nearestValue_eq_nearestEven (t := 1) (by decide) (by linarith) (by linarith), hscaled,
      nearestEven_add_half, Nat.mul_mod_right, Nat.add_zero]
    push_cast
    ring
  · obtain ⟨m, rfl⟩ : ∃ m : ℕ, n = -(m + 1 : ℕ) := ⟨(-n - 1).toNat, by omega⟩
    have hm : (0 : ℚ) ≤ m := Nat.cast_nonneg m
    have hneg : ((-(m + 1 : ℕ) : ℤ) + 1 / 4 : ℚ) = -(m + 3 / 4) := by push_cast; ring
    rw [hneg, abs_neg, abs_of_nonneg (by linarith)] at hlow hhigh
    have hscaled : (m + 3 / 4 : ℚ) * 2 ^ 1 = (2 * m + 1 : ℕ) + 1 / 2 := by push_cast; ring
    have hodd : (2 * m + 1) % 2 = 1 := by omega
    rw [hneg, nearestValue_neg, nearestValue_eq_nearestEven (t := 1) (by decide) (by linarith)
      (by linarith), hscaled, nearestEven_add_half, hodd]
    push_cast
    ring

section

variable {n : ℤ} {v : ℚ}

/-- How far the value of a number of units is from it, where the spacing is at most `1 / 2 ^ t`. -/
theorem abs_mul_sub_le_of_nearestValue (hv : nearestValue (n / 10 ^ 12) = v) {t : ℕ}
    (ht : t ≤ leastExponent) (hsmall : |v| < 2 ^ 53 / 2 ^ t) :
    |v * 10 ^ 12 - n| ≤ 10 ^ 12 / 2 ^ (t + 1) := by
  have hbound : |(n / 10 ^ 12 : ℚ)| ≤ 2 ^ 53 / 2 ^ t := by
    by_contra hlarge
    have hrep := representable_div_two_pow (n := 2 ^ 53) (by norm_num) ht
    rw [Int.cast_pow, Int.cast_ofNat] at hrep
    have hmono := hrep.le_abs_nearestValue (not_le.mp hlarge).le
    rw [hv] at hmono
    exact absurd hsmall (not_lt.mpr hmono)
  have herror := abs_nearestValue_sub_le ht hbound
  have hscale : v * 10 ^ 12 - n = (v - n / 10 ^ 12) * 10 ^ 12 := by ring
  rw [hv] at herror
  calc |v * 10 ^ 12 - n| = |v - n / 10 ^ 12| * 10 ^ 12 := by
        rw [hscale, abs_mul_ten_pow]
    _ ≤ 1 / 2 ^ (t + 1) * 10 ^ 12 := mul_le_mul_of_nonneg_right herror (by norm_num)
    _ = 10 ^ 12 / 2 ^ (t + 1) := one_div_mul_eq_div _ _

/-! ## Below 4096 -/

theorem roundedQuotient_eq_of_lt (hn : Representable n) (hv : nearestValue (n / 10 ^ 12) = v)
    (hsmall : |v| < 4096) : roundedQuotient (10 ^ 12) v = v := by
  have hrep : Representable v := hv ▸ representable_nearestValue _
  have hraised : |nearestValue (v + 1 / 2 ^ 52) - v| ≤ 2 / 2 ^ 52 := by
    have herror := hrep.abs_nearestValue_sub_le (v + 1 / 2 ^ 52)
    rw [sub_add_cancel_left, abs_neg, abs_of_pos (by norm_num : (0 : ℚ) < 1 / 2 ^ 52)] at herror
    rw [abs_le] at herror ⊢
    exact ⟨by linarith [herror.1], by linarith [herror.2]⟩
  have hscaled : |nearestValue (v + 1 / 2 ^ 52) * 10 ^ 12 - n| < 1 / 4 := by
    have hnear := abs_mul_sub_le_of_nearestValue hv (t := 41) (by decide)
      (hsmall.trans_le (by norm_num))
    rw [abs_le] at hraised hnear
    rw [abs_lt]
    exact ⟨by linarith [hraised.1, hnear.1], by linarith [hraised.2, hnear.2]⟩
  have hrounded : |nearestValue (nearestValue (v + 1 / 2 ^ 52) * 10 ^ 12) - n| < 1 / 2 := by
    have herror := hn.abs_nearestValue_sub_le (nearestValue (v + 1 / 2 ^ 52) * 10 ^ 12)
    rw [abs_sub_comm (n : ℚ)] at herror
    have htriangle := abs_sub_le (nearestValue (nearestValue (v + 1 / 2 ^ 52) * 10 ^ 12))
      (nearestValue (v + 1 / 2 ^ 52) * 10 ^ 12) n
    linarith
  rw [roundedQuotient, round_eq_of_abs_sub_lt hrounded, hv]

/-! ## From 4096 on -/

/-- Where the scaled values are whole, rounding is multiplying and dividing. -/
theorem roundedQuotient_eq_nearestValue (hv : Representable v) (hlarge : 2 ^ 52 ≤ |v| * 10 ^ 12) :
    roundedQuotient (10 ^ 12) v = nearestValue (nearestValue (v * 10 ^ 12) / 10 ^ 12) := by
  have hscaled : 2 ^ 52 ≤ |nearestValue (v * 10 ^ 12)| :=
    (representable_two_pow _).le_abs_nearestValue (by rwa [abs_mul_ten_pow])
  obtain ⟨k, hk⟩ := exists_int_of_representable (t := 0) (representable_nearestValue _)
    (Nat.zero_le _) (le_of_eq_of_le (by norm_num) hscaled)
  rw [pow_zero, div_one] at hk
  rw [roundedQuotient, nearestValue_add_epsilon hv (by linarith), hk, round_intCast]

theorem roundedQuotient_eq_of_le (hn : Representable n) (hv : nearestValue (n / 10 ^ 12) = v)
    (hlarge : 2 ^ 52 ≤ |v| * 10 ^ 12) : roundedQuotient (10 ^ 12) v = v := by
  have hcancel := nearestValue_mul_div_cancel hn (c := 10 ^ 12) (by norm_num) (by norm_num)
  rw [Int.cast_pow, Int.cast_ofNat, hv] at hcancel
  rw [roundedQuotient_eq_nearestValue (hv ▸ representable_nearestValue _) hlarge, hcancel]

/-- In between, the scaled value is rounded to a multiple of a half, by at most a quarter. -/
theorem exists_nearestValue_eq_half (hlow : 4096 ≤ |v|) (hhigh : |v| * 10 ^ 12 < 2 ^ 52) :
    ∃ k : ℤ, nearestValue (v * 10 ^ 12) = k / 2 ∧ |k / 2 - v * 10 ^ 12| ≤ 1 / 4 := by
  have habs := abs_mul_ten_pow v
  have hscaled : 2 ^ 51 ≤ |nearestValue (v * 10 ^ 12)| :=
    (representable_two_pow _).le_abs_nearestValue (by linarith)
  obtain ⟨k, hk⟩ := exists_int_of_representable (t := 1) (representable_nearestValue _)
    (by decide) (le_of_eq_of_le (by norm_num) hscaled)
  rw [pow_one] at hk
  refine ⟨k, hk, ?_⟩
  have herror := abs_nearestValue_sub_le (q := v * 10 ^ 12) (t := 1) (by decide)
    (by rw [habs]; linarith)
  rw [hk] at herror
  linarith

theorem abs_mul_sub_lt_half (hv : nearestValue (n / 10 ^ 12) = v)
    (hhigh : |v| * 10 ^ 12 < 2 ^ 52) : |v * 10 ^ 12 - n| < 1 / 2 := by
  have hsmall : |v| < 2 ^ 53 / 2 ^ 40 := by norm_num; linarith
  exact (abs_mul_sub_le_of_nearestValue hv (by decide) hsmall).trans_lt (by norm_num)

/-- In between, a value comes back unless it lies more than a quarter of a unit above. -/
theorem roundedQuotient_eq_iff_le (hv : nearestValue (n / 10 ^ 12) = v) (hlow : 4096 ≤ |v|)
    (hhigh : |v| * 10 ^ 12 < 2 ^ 52) :
    roundedQuotient (10 ^ 12) v = v ↔ v * 10 ^ 12 ≤ n + 1 / 4 := by
  have hrep : Representable v := hv ▸ representable_nearestValue _
  have hnear := abs_lt.mp (abs_mul_sub_lt_half hv hhigh)
  obtain ⟨k, hk, herror⟩ := exists_nearestValue_eq_half hlow hhigh
  have herror' := abs_le.mp herror
  rw [roundedQuotient, nearestValue_add_epsilon hrep (by linarith), hk]
  constructor
  · intro heq
    by_contra hlt
    have hround : round (k / 2 : ℚ) = n + 1 := by
      have hbelow : 2 * n < k := by
        have : ((2 * n : ℤ) : ℚ) < k := by push_cast; linarith
        exact Int.cast_lt.mp this
      have habove : k < 2 * n + 2 := by
        have : (k : ℚ) < (2 * n + 2 : ℤ) := by push_cast; linarith
        exact Int.cast_lt.mp this
      obtain rfl : k = 2 * n + 1 := by omega
      rw [round_eq_iff]
      push_cast
      exact ⟨by linarith, by linarith⟩
    -- the value cannot be less than half a unit away from the next whole number, too
    rw [hround] at heq
    have hnear' := abs_lt.mp (abs_mul_sub_lt_half heq hhigh)
    push_cast at hnear'
    linarith
  · intro hle
    have hbelow : (k : ℚ) < 2 * n + 1 := by
      rcases hle.lt_or_eq with hlt | heq
      · linarith
      · have htie : nearestValue (v * 10 ^ 12) = n := by
          have habs := abs_mul_ten_pow v
          rw [heq] at habs ⊢
          exact nearestValue_add_quarter (by rw [habs]; linarith) (by rwa [habs])
        rw [hk] at htie
        linarith
    have hround : round (k / 2 : ℚ) = n := round_eq_iff.mpr ⟨?_, by linarith⟩
    · rw [hround, hv]
    have habove : 2 * n - 1 ≤ k := by
      have : ((2 * n - 2 : ℤ) : ℚ) < k := by push_cast; linarith
      have := Int.cast_lt.mp this
      omega
    have habove' : ((2 * n - 1 : ℤ) : ℚ) ≤ k := Int.cast_le.mpr habove
    push_cast at habove'
    linarith

/-- **The values that drift.** Rounding a value to twelve places again leaves it as it is, unless it
drifts. -/
theorem roundedQuotient_eq_iff (hn : Representable n) (hv : nearestValue (n / 10 ^ 12) = v) :
    roundedQuotient (10 ^ 12) v = v ↔ ¬ Drifts v := by
  by_cases hlow : 4096 ≤ |v|
  · by_cases hhigh : |v| * 10 ^ 12 < 2 ^ 52
    · have hnear := abs_lt.mp (abs_mul_sub_lt_half hv hhigh)
      rw [roundedQuotient_eq_iff_le hv hlow hhigh, ← not_lt, not_iff_not]
      constructor
      · intro hquarter
        have hfloor : ⌊v * 10 ^ 12⌋ = n := Int.floor_eq_iff.mpr ⟨by linarith, by linarith⟩
        refine ⟨hlow, hhigh, ?_, ?_⟩
        · rw [Int.fract, hfloor]
          linarith
        · rw [Int.fract, hfloor]
          linarith
      · rintro ⟨-, -, hquarter, hhalf⟩
        -- the part after the point is more than a half where the value is below
        have hfloor : ⌊v * 10 ^ 12⌋ = n := by
          rcases lt_or_ge (v * 10 ^ 12) (n : ℚ) with hbelow | habove
          · have hfloor' : ⌊v * 10 ^ 12⌋ = n - 1 :=
              Int.floor_eq_iff.mpr ⟨by push_cast; linarith, by push_cast; linarith⟩
            rw [Int.fract, hfloor'] at hhalf
            push_cast at hhalf
            linarith
          · exact Int.floor_eq_iff.mpr ⟨habove, by linarith⟩
        rw [Int.fract, hfloor] at hquarter
        linarith
    · exact iff_of_true (roundedQuotient_eq_of_le hn hv (not_lt.mp hhigh)) fun h ↦ hhigh h.2.1
  · exact iff_of_true (roundedQuotient_eq_of_lt hn hv (not_le.mp hlow)) fun h ↦ hlow h.1

end

end PocketCalculator
