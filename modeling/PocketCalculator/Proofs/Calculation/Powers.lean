import Mathlib.Algebra.Order.Ring.Pow
import PocketCalculator.Proofs.Calculation.Places

/-!
# Powers of ten

The power of ten by which a number is scaled is formed by repeated squaring, and each product is
rounded. A power with exponent `n` is made of `n` tens by `n - 1` products, so it is off by at most
`n - 1` relative errors of `2 ^ -53`, in whatever order the products are formed (`NearPower`). That
is what a product keeps (`NearPower.mul`).

For the exponents with a finite power this is all that needs to be known. The last of them is 308,
where the power is still far from the largest number, and at 309 it would be far beyond
(`isFinite_placesFactor_iff`, `nearPower_placesFactor`).
-/

namespace PocketCalculator

open Binary64 (largestValue maxPlaces placesFactor)

/-! ## The invariant -/

/-- Whether a rational is as near to a power of ten as one rounding for each product allows. -/
def NearPower (n : ℕ) (q : ℚ) : Prop :=
  10 ^ n * (1 - 1 / 2 ^ 53) ^ (n - 1) ≤ q ∧ q ≤ 10 ^ n * (1 + 1 / 2 ^ 53) ^ (n - 1)

theorem nearPower_zero_iff {q : ℚ} : NearPower 0 q ↔ q = 1 := by
  rw [NearPower, pow_zero, Nat.zero_sub, pow_zero, pow_zero, one_mul]
  exact ⟨fun h ↦ le_antisymm h.2 h.1, fun h ↦ ⟨h.ge, h.le⟩⟩

theorem nearPower_one : NearPower 1 10 := by
  rw [NearPower, pow_one, Nat.sub_self, pow_zero, pow_zero, mul_one]
  exact ⟨le_rfl, le_rfl⟩

/-- The power of the next exponent has one relative error more. -/
theorem nearPower_succ_iff {n : ℕ} {q : ℚ} : NearPower (n + 1) q ↔
    10 * (10 * (1 - 1 / 2 ^ 53)) ^ n ≤ q ∧ q ≤ 10 * (10 * (1 + 1 / 2 ^ 53)) ^ n := by
  rw [NearPower, Nat.add_sub_cancel, pow_succ', mul_pow, mul_pow, mul_assoc, mul_assoc]

namespace NearPower

variable {a b n : ℕ} {x y q : ℚ}

theorem one_le (h : NearPower n q) : 1 ≤ q := by
  cases n with
  | zero => exact (nearPower_zero_iff.mp h).ge
  | succ n =>
    have hpow : (1 : ℚ) ≤ (10 * (1 - 1 / 2 ^ 53)) ^ n := one_le_pow₀ (by norm_num)
    linarith [(nearPower_succ_iff.mp h).1]

/-- **The step.** What is near to two powers has a rounded product that is near to the product of
the powers. -/
theorem mul (hx : Representable x) (hy : Representable y) (ha : NearPower a x)
    (hb : NearPower b y) : NearPower (a + b) (nearestValue (x * y)) := by
  have hx₀ := zero_le_one.trans ha.one_le
  have hy₀ := zero_le_one.trans hb.one_le
  have hone := one_le_mul_of_one_le_of_one_le ha.one_le hb.one_le
  have herror := abs_le.mp (abs_nearestValue_sub_le_div hone)
  cases a with
  | zero => rwa [nearPower_zero_iff.mp ha, one_mul, Nat.zero_add, hy.nearestValue_eq]
  | succ a =>
    cases b with
    | zero => rwa [nearPower_zero_iff.mp hb, mul_one, Nat.add_zero, hx.nearestValue_eq]
    | succ b =>
      obtain ⟨hlow, hhigh⟩ := nearPower_succ_iff.mp ha
      obtain ⟨hlow', hhigh'⟩ := nearPower_succ_iff.mp hb
      -- one error for each of the two powers, and one for their product
      have hpow : ∀ r : ℚ, 10 * (10 * r) ^ (a + 1 + b) =
          10 * (10 * r) ^ a * (10 * (10 * r) ^ b) * r := by
        intro r
        rw [pow_add, pow_succ]
        ring
      have hsum : a + 1 + (b + 1) = a + 1 + b + 1 := rfl
      rw [hsum, nearPower_succ_iff, hpow, hpow]
      constructor
      · calc _ ≤ x * y * (1 - 1 / 2 ^ 53) := by gcongr
          _ ≤ nearestValue (x * y) := by linarith [herror.1]
      · calc nearestValue (x * y) ≤ x * y * (1 + 1 / 2 ^ 53) := by linarith [herror.2]
          _ ≤ _ := by gcongr

theorem abs_sub_le (h : NearPower n q) (hn : n ≤ 4096) : |q - 10 ^ n| ≤ 10 ^ n / 2 ^ 40 := by
  have hcount : (n - 1 : ℕ) ≤ (4096 : ℚ) := by exact_mod_cast (Nat.sub_le n 1).trans hn
  have hpow : (0 : ℚ) < 10 ^ n := by positivity
  have hlow : (1 - 4096 / 2 ^ 53 : ℚ) ≤ (1 - 1 / 2 ^ 53) ^ (n - 1) := by
    have hbernoulli := one_add_mul_le_pow (a := (-1 / 2 ^ 53 : ℚ)) (by norm_num) (n - 1)
    rw [neg_div, ← sub_eq_add_neg] at hbernoulli
    linarith
  have hhigh : (1 + 1 / 2 ^ 53) ^ (n - 1) ≤ (1 + 1 / 2 ^ 40 : ℚ) := by
    have hinverse : (1 + 1 / 2 ^ 53 : ℚ) ^ (n - 1) * (1 - 1 / 2 ^ 53) ^ (n - 1) ≤ 1 := by
      rw [← mul_pow]
      exact pow_le_one₀ (by norm_num) (by norm_num)
    by_contra hlarge
    have hproduct := mul_lt_mul (not_le.mp hlarge) hlow (by norm_num) (by positivity)
    linarith
  rw [abs_le]
  constructor
  · linarith [h.1, mul_le_mul_of_nonneg_left hlow hpow.le]
  · linarith [h.2, mul_le_mul_of_nonneg_left hhigh hpow.le]

end NearPower

/-! ## The exponents with a finite power -/

theorem largestValue_eq : largestValue = (2 ^ 53 - 1) * ((2 ^ 242) ^ 4 * 2 ^ 3) := by
  rw [largestValue, ← pow_mul, ← pow_add]

/-- Up to the exponent 308 there is room between the power of ten and the largest value. -/
theorem ten_pow_mul_le_largestValue {n : ℕ} (hn : n ≤ 308) :
    (10 : ℚ) ^ n * (8 / 5) ≤ largestValue := by
  have hpow : (10 : ℚ) ^ n ≤ (10 ^ 154) ^ 2 := by
    rw [← pow_mul]
    exact pow_le_pow_right₀ (by norm_num) hn
  calc (10 : ℚ) ^ n * (8 / 5) ≤ (10 ^ 154) ^ 2 * (8 / 5) := by gcongr
    _ ≤ largestValue := by rw [largestValue_eq]; norm_num

theorem largestValue_lt_ten_pow : largestValue < 10 ^ 309 * (1 - 1 / 2 ^ 40) := by
  have hten : (10 : ℚ) ^ 309 = (10 ^ 103) ^ 3 := by rw [← pow_mul]
  rw [largestValue_eq, hten]
  norm_num

/-- What is near to a power with a larger exponent is larger than any number. -/
theorem NearPower.largestValue_lt {n : ℕ} {q : ℚ} (h : NearPower n q) (hn : 309 ≤ n) :
    largestValue < q := by
  obtain ⟨k, rfl⟩ : ∃ k, n = 308 + k + 1 := ⟨n - 309, by omega⟩
  have hleast : NearPower 309 (10 * (10 * (1 - 1 / 2 ^ 53)) ^ 308) :=
    nearPower_succ_iff.mpr ⟨le_rfl, by gcongr; norm_num⟩
  calc largestValue < 10 ^ 309 * (1 - 1 / 2 ^ 40) := largestValue_lt_ten_pow
    _ = 10 ^ 309 - 10 ^ 309 / 2 ^ 40 := by rw [mul_one_sub, mul_one_div]
    _ ≤ 10 * (10 * (1 - 1 / 2 ^ 53)) ^ 308 :=
        sub_le_comm.mp (abs_sub_le_iff.mp (hleast.abs_sub_le (by norm_num))).2
    _ ≤ 10 * (10 * (1 - 1 / 2 ^ 53)) ^ (308 + k) := by
        gcongr
        · norm_num
        · exact Nat.le_add_right 308 k
    _ ≤ q := (nearPower_succ_iff.mp h).1

theorem isFinite_mul_of_nearPower {a b : ℕ} {x y : Binary64} (hx : x.isFinite = true)
    (hy : y.isFinite = true) (ha : NearPower a x.toRat) (hb : NearPower b y.toRat)
    (hab : a + b ≤ 308) : (x * y).isFinite = true := by
  have hx₀ := zero_le_one.trans ha.one_le
  have hy₀ := zero_le_one.trans hb.one_le
  have hx' := (abs_le.mp (ha.abs_sub_le (by omega))).2
  have hy' := (abs_le.mp (hb.abs_sub_le (by omega))).2
  rw [Binary64.isFinite_mul_iff hx hy]
  refine Binary64.isFinite_ofRat_of_le_largestValue ?_
  rw [abs_of_nonneg (mul_nonneg hx₀ hy₀)]
  calc x.toRat * y.toRat ≤ 10 ^ a * (1 + 1 / 2 ^ 40) * (10 ^ b * (1 + 1 / 2 ^ 40)) :=
        mul_le_mul (by linarith) (by linarith) hy₀ (by positivity)
    _ = 10 ^ (a + b) * (1 + 1 / 2 ^ 40) ^ 2 := by ring
    _ ≤ 10 ^ (a + b) * (8 / 5) := by gcongr; norm_num
    _ ≤ largestValue := ten_pow_mul_le_largestValue hab

/-- **The run.** What the products of powers keep, a power of ten has, with the exponent to which ten
is raised. -/
theorem placesFactor_spec (places : ℕ) :
    (min places maxPlaces ≤ 308 → (placesFactor places).isFinite = true) ∧
      ((placesFactor places).isFinite = true →
        NearPower (min places maxPlaces) (placesFactor places).toRat) := by
  refine placesFactor_induction
    (P := fun n x ↦ (n ≤ 308 → x.isFinite = true) ∧ (x.isFinite = true → NearPower n x.toRat)) ?_
    ⟨fun _ ↦ toRat_one.1, fun _ ↦ nearPower_zero_iff.mpr toRat_one.2⟩
    ⟨fun _ ↦ toRat_ten.1, fun _ ↦ toRat_ten.2.symm ▸ nearPower_one⟩ places
  intro a b x y hx hy
  constructor
  · intro hab
    have hx' := hx.1 (by omega)
    have hy' := hy.1 (by omega)
    exact isFinite_mul_of_nearPower hx' hy' (hx.2 hx') (hy.2 hy') hab
  · intro h
    obtain ⟨hx', hy'⟩ := Binary64.isFinite_of_mul h
    rw [Binary64.toRat_mul hx' hy' h]
    exact .mul (Binary64.representable_toRat x) (Binary64.representable_toRat y) (hx.2 hx')
      (hy.2 hy')

/-- **The finite powers of ten** are those with an exponent up to 308. -/
theorem isFinite_placesFactor_iff {places : ℕ} :
    (placesFactor places).isFinite = true ↔ places ≤ 308 := by
  obtain ⟨hfinite, hnear⟩ := placesFactor_spec places
  refine ⟨fun h ↦ ?_, fun h ↦ hfinite ((min_le_left _ _).trans h)⟩
  by_contra hlarge
  have hmin : 309 ≤ min places maxPlaces := le_min (not_le.mp hlarge) (by decide)
  exact absurd (Binary64.toRat_le_largestValue _) (not_le.mpr ((hnear h).largestValue_lt hmin))

theorem nearPower_placesFactor {places : ℕ} (h : places ≤ 308) :
    NearPower places (placesFactor places).toRat := by
  have hnear := (placesFactor_spec places).2 (isFinite_placesFactor_iff.mpr h)
  rwa [min_eq_left (h.trans (by decide) : places ≤ maxPlaces)] at hnear

theorem abs_toRat_placesFactor_sub_le {places : ℕ} (h : places ≤ 308) :
    |(placesFactor places).toRat - 10 ^ places| ≤ 10 ^ places / 2 ^ 40 :=
  (nearPower_placesFactor h).abs_sub_le (h.trans (by norm_num))

/-! ## How large the last ones are -/

theorem placesFactor_mul_le_largestValue {places : ℕ} (h : places ≤ 308) :
    (placesFactor places).toRat * (3 / 2) ≤ largestValue := by
  have hnear := (abs_le.mp (abs_toRat_placesFactor_sub_le h)).2
  have hpow : (0 : ℚ) < 10 ^ places := by positivity
  calc (placesFactor places).toRat * (3 / 2) ≤ 10 ^ places * (8 / 5) := by linarith
    _ ≤ largestValue := ten_pow_mul_le_largestValue h

theorem placesFactor_mul_nine_le_largestValue {places : ℕ} (h : places ≤ 307) :
    (placesFactor places).toRat * 9 ≤ largestValue := by
  have hnear := (abs_le.mp (abs_toRat_placesFactor_sub_le (h.trans (by norm_num)))).2
  have hpow : (0 : ℚ) < 10 ^ places := by positivity
  calc (placesFactor places).toRat * 9 ≤ 10 ^ places * 10 * (8 / 5) := by linarith
    _ = 10 ^ (places + 1) * (8 / 5) := by rw [pow_succ]
    _ ≤ largestValue := ten_pow_mul_le_largestValue (by omega)

theorem le_toRat_placesFactor : 17 * 2 ^ 1019 ≤ (placesFactor 308).toRat := by
  have hten : (10 : ℚ) ^ 308 = (10 ^ 154) ^ 2 := by rw [← pow_mul]
  have htwo : (2 : ℚ) ^ 1019 = (2 ^ 254) ^ 4 * 2 ^ 3 := by rw [← pow_mul, ← pow_add]
  calc 17 * 2 ^ 1019 ≤ (10 : ℚ) ^ 308 - 10 ^ 308 / 2 ^ 40 := by rw [hten, htwo]; norm_num
    _ ≤ (placesFactor 308).toRat :=
        sub_le_comm.mp (abs_sub_le_iff.mp (abs_toRat_placesFactor_sub_le le_rfl)).2

end PocketCalculator
