import Mathlib.Algebra.Order.Round
import PocketCalculator.Proofs.Binary64.Nearest

/-!
# The nearest value

Rounding as a function from rationals to rationals, as if the magnitudes had no end. It is what
arithmetic on finite numbers comes down to, and what is said of it here needs no codes and no signs:
it is odd and monotone, it leaves representable rationals as they are, nothing representable is
nearer, and its error is at most half of what separates the values around.

## There and back

Multiplying a value by a factor and dividing the product by it again is not the identity, since both
steps round. But a value that is itself a rounded quotient of a value by the factor does come back
(`nearestValue_mul_div_cancel`): the product is no farther from its exact value than the value that
was divided at first. Where the values on both sides are equally far away, no farther means that
the same value is nearest; where they are not, the value is a power of two and the product is exact.
-/

namespace PocketCalculator

/-- The representable rational nearest to a rational. -/
def nearestValue (q : ℚ) : ℚ :=
  if q < 0 then -codeValue (nearestCode (-q)) else codeValue (nearestCode q)

theorem nearestValue_of_nonneg {q : ℚ} (hq : 0 ≤ q) :
    nearestValue q = codeValue (nearestCode q) :=
  if_neg (not_lt.mpr hq)

theorem nearestValue_of_isNearest {q : ℚ} (hq : 0 ≤ q) {code : ℕ} (h : IsNearest q code) :
    nearestValue q = codeValue code := by
  rw [nearestValue_of_nonneg hq, (nearestCode_eq_iff hq).mpr h]

@[simp] theorem nearestValue_zero : nearestValue 0 = 0 := by
  rw [nearestValue_of_isNearest le_rfl (codeValue_zero ▸ isNearest_codeValue 0), codeValue_zero]

theorem nearestValue_neg (q : ℚ) : nearestValue (-q) = -nearestValue q := by
  rcases lt_trichotomy q 0 with hneg | rfl | hpos
  · rw [nearestValue_of_nonneg (by linarith), nearestValue, if_pos hneg, neg_neg]
  · simp
  · rw [nearestValue_of_nonneg hpos.le, nearestValue, if_pos (by linarith), neg_neg]

theorem nearestValue_nonneg {q : ℚ} (hq : 0 ≤ q) : 0 ≤ nearestValue q := by
  rw [nearestValue_of_nonneg hq]
  exact codeValue_nonneg _

theorem abs_nearestValue (q : ℚ) : |nearestValue q| = nearestValue |q| := by
  rcases le_total 0 q with hpos | hneg
  · rw [abs_of_nonneg (nearestValue_nonneg hpos), abs_of_nonneg hpos]
  · have hnonneg := nearestValue_nonneg (neg_nonneg.mpr hneg)
    rw [nearestValue_neg] at hnonneg
    rw [abs_of_nonpos hneg, nearestValue_neg, abs_of_nonpos (neg_nonneg.mp hnonneg)]

theorem representable_nearestValue (q : ℚ) : Representable (nearestValue q) :=
  ⟨nearestCode |q|, by rw [abs_nearestValue, nearestValue_of_nonneg (abs_nonneg q)]⟩

theorem Representable.nearestValue_eq {q : ℚ} (h : Representable q) : nearestValue q = q := by
  obtain ⟨code, hcode⟩ := h
  have habs : nearestValue |q| = |q| := by
    rw [nearestValue_of_nonneg (abs_nonneg q), hcode, nearestCode_codeValue]
  rcases abs_choice q with hpos | hneg
  · rwa [hpos] at habs
  · rw [hneg, nearestValue_neg] at habs
    exact neg_injective habs

theorem nearestValue_mono : Monotone nearestValue := by
  -- for rationals that are not negative by their codes, and for others by the sign
  have hpos : ∀ {p q : ℚ}, 0 ≤ p → p ≤ q → nearestValue p ≤ nearestValue q := by
    intro p q hp hpq
    rw [nearestValue_of_nonneg hp, nearestValue_of_nonneg (hp.trans hpq)]
    exact codeValue_strictMono.monotone
      ((isNearest_nearestCode hp).mono (isNearest_nearestCode (hp.trans hpq)) hpq)
  intro p q hpq
  rcases le_total 0 p with hp | hp
  · exact hpos hp hpq
  · rcases le_total 0 q with hq | hq
    · have := nearestValue_nonneg (neg_nonneg.mpr hp)
      rw [nearestValue_neg] at this
      have := nearestValue_nonneg hq
      linarith
    · have := hpos (neg_nonneg.mpr hq) (neg_le_neg hpq)
      rw [nearestValue_neg, nearestValue_neg] at this
      linarith

theorem Representable.le_nearestValue {r q : ℚ} (hr : Representable r) (h : r ≤ q) :
    r ≤ nearestValue q :=
  hr.nearestValue_eq.ge.trans (nearestValue_mono h)

theorem Representable.nearestValue_le {r q : ℚ} (hr : Representable r) (h : q ≤ r) :
    nearestValue q ≤ r :=
  (nearestValue_mono h).trans hr.nearestValue_eq.le

theorem Representable.le_abs_nearestValue {r q : ℚ} (hr : Representable r) (h : r ≤ |q|) :
    r ≤ |nearestValue q| := by
  rw [abs_nearestValue]
  exact hr.le_nearestValue h

theorem Representable.abs_nearestValue_le {r q : ℚ} (hr : Representable r) (h : |q| ≤ r) :
    |nearestValue q| ≤ r := by
  rw [abs_nearestValue]
  exact hr.nearestValue_le h

theorem Representable.abs_nearestValue_sub_le {r : ℚ} (hr : Representable r) (q : ℚ) :
    |nearestValue q - q| ≤ |r - q| := by
  have hpos : ∀ {r q : ℚ}, Representable r → 0 ≤ q → |nearestValue q - q| ≤ |r - q| := by
    intro r q hr hq
    obtain ⟨code, hcode⟩ := hr
    have hnearest := isNearest_nearestCode hq
    rw [nearestValue_of_nonneg hq]
    rcases le_total 0 r with hr | hr
    · rw [abs_of_nonneg hr] at hcode
      rw [hcode]
      exact hnearest.abs_sub_le code
    · calc |codeValue (nearestCode q) - q| ≤ |codeValue 0 - q| := hnearest.abs_sub_le 0
        _ = q := by rw [codeValue_zero, zero_sub, abs_neg, abs_of_nonneg hq]
        _ ≤ |r - q| := by rw [abs_of_nonpos (by linarith)]; linarith
  rcases le_total 0 q with hq | hq
  · exact hpos hr hq
  · have := hpos hr.neg (neg_nonneg.mpr hq)
    rwa [nearestValue_neg, neg_sub_neg, neg_sub_neg, abs_sub_comm, abs_sub_comm q] at this

/-! ## Errors -/

/-- Where the multiples of a spacing that have 53 bits are representable, the error is at most half
of the spacing. -/
theorem abs_nearestValue_sub_le_of_spacing {q s : ℚ} (hs : 0 < s)
    (hrep : ∀ n : ℤ, |n| ≤ 2 ^ 53 → Representable (n * s)) (hq : |q| ≤ 2 ^ 53 * s) :
    |nearestValue q - q| ≤ s / 2 := by
  have hround := abs_sub_round (q / s)
  have hbound : |round (q / s)| ≤ 2 ^ 53 := by
    have hq' : |q / s| ≤ 2 ^ 53 := by
      rw [abs_div, abs_of_pos hs]
      exact (div_le_iff₀ hs).mpr hq
    obtain ⟨hlow, hhigh⟩ := abs_le.mp hq'
    obtain ⟨hlow', hhigh'⟩ := abs_le.mp hround
    refine abs_le.mpr ⟨?_, ?_⟩
    · have : ((-2 ^ 53 - 1 : ℤ) : ℚ) < round (q / s) := by push_cast; linarith
      have := Int.cast_lt.mp this
      omega
    · have : ((round (q / s) : ℤ) : ℚ) < (2 ^ 53 + 1 : ℤ) := by push_cast; linarith
      have := Int.cast_lt.mp this
      omega
  have hsplit : round (q / s) * s - q = -(q / s - round (q / s)) * s := by
    rw [neg_sub, sub_mul, div_mul_cancel₀ _ hs.ne']
  calc |nearestValue q - q| ≤ |round (q / s) * s - q| :=
        (hrep _ hbound).abs_nearestValue_sub_le q
    _ = |q / s - round (q / s)| * s := by rw [hsplit, abs_mul, abs_neg, abs_of_pos hs]
    _ ≤ 1 / 2 * s := mul_le_mul_of_nonneg_right hround hs.le
    _ = s / 2 := one_div_mul_eq_div 2 s

theorem abs_nearestValue_sub_le {q : ℚ} {t : ℕ} (ht : t ≤ leastExponent)
    (hq : |q| ≤ 2 ^ 53 / 2 ^ t) : |nearestValue q - q| ≤ 1 / 2 ^ (t + 1) := by
  have h := abs_nearestValue_sub_le_of_spacing (s := 1 / 2 ^ t) (by positivity)
    (fun n hn ↦ by simpa only [mul_one_div] using representable_div_two_pow hn ht)
    (by rwa [mul_one_div])
  rwa [div_div, ← pow_succ] at h

theorem abs_nearestValue_sub_le_two_pow {q : ℚ} {k : ℕ} (hq : |q| ≤ 2 ^ 53 * 2 ^ k) :
    |nearestValue q - q| ≤ 2 ^ k / 2 :=
  abs_nearestValue_sub_le_of_spacing (by positivity)
    (fun _ hn ↦ representable_intCast_mul_two_pow hn k) hq

/-- On the multiples of a spacing that have 53 bits, the nearest value is the nearest multiple. -/
theorem nearestValue_mul_two_pow {w : ℚ} (hlow : 2 ^ 52 ≤ w) (hhigh : w < 2 ^ 53) (k : ℕ) :
    nearestValue (w * 2 ^ k / 2 ^ leastExponent) = nearestEven w * 2 ^ k / 2 ^ leastExponent := by
  have hw : 0 ≤ w := le_trans (by norm_num) hlow
  have hlow' : (4503599627370496 : ℕ) ≤ w := le_of_eq_of_le (by norm_num) hlow
  have hhigh' : w < (2 * 4503599627370496 : ℕ) := lt_of_lt_of_eq hhigh (by norm_num)
  have hnearest := isNearest_nearestEven (k := k) (by exact_mod_cast hhigh')
    (.inr (by exact_mod_cast hlow')) hw
  rw [nearestValue_of_isNearest (by positivity) hnearest, codeValue,
    unitsOfCode_add (.inr (le_nearestEven hlow')) (nearestEven_le hw hhigh'.le), Nat.cast_mul,
    Nat.cast_pow, Nat.cast_ofNat]

theorem nearestValue_eq_nearestEven {q : ℚ} {t : ℕ} (ht : t ≤ leastExponent)
    (hlow : 2 ^ 52 ≤ q * 2 ^ t) (hhigh : q * 2 ^ t < 2 ^ 53) :
    nearestValue q = nearestEven (q * 2 ^ t) / 2 ^ t := by
  have hpow : (0 : ℚ) < 2 ^ t := by positivity
  have h := nearestValue_mul_two_pow hlow hhigh (leastExponent - t)
  rwa [mul_div_assoc, mul_div_assoc, two_pow_sub_div ht, mul_one_div, mul_one_div,
    mul_div_cancel_right₀ _ hpow.ne'] at h

/-- From 1 on, a rational has 53 bits before the point of some unit. -/
theorem exists_eq_mul_two_pow {q : ℚ} (hq : 1 ≤ q) :
    ∃ (w : ℚ) (k : ℕ), 2 ^ 52 ≤ w ∧ w < 2 ^ 53 ∧ q = w * 2 ^ k / 2 ^ leastExponent := by
  have hunits : (2 : ℚ) ^ 53 ≤ q * 2 ^ leastExponent :=
    (pow_le_pow_right₀ one_le_two (by decide)).trans (le_mul_of_one_le_left unit_pos.le hq)
  obtain ⟨hhigh, hlow⟩ := spacingDoublings_spec (le_trans (by positivity) hunits)
  generalize spacingDoublings (q * 2 ^ leastExponent) = k at hhigh hlow
  have hpow : (0 : ℚ) < 2 ^ k := by positivity
  have hlow' : 4503599627370496 * 2 ^ k ≤ q * 2 ^ leastExponent := by
    refine hlow.resolve_left ?_
    rintro rfl
    linarith
  refine ⟨q * 2 ^ leastExponent / 2 ^ k, k, ?_, ?_, ?_⟩
  · rw [le_div_iff₀ hpow]
    linarith
  · rw [div_lt_iff₀ hpow]
    linarith
  · rw [div_mul_cancel₀ _ hpow.ne', mul_div_cancel_right₀ _ unit_pos.ne']

theorem abs_nearestValue_sub_le_div {q : ℚ} (hq : 1 ≤ q) : |nearestValue q - q| ≤ q / 2 ^ 53 := by
  obtain ⟨w, k, hlow, hhigh, rfl⟩ := exists_eq_mul_two_pow hq
  have hunit : (0 : ℚ) < 2 ^ k / 2 ^ leastExponent := by positivity
  have herror := abs_sub_nearestEven_le (q := w) (le_trans (by positivity) hlow)
  rw [nearestValue_mul_two_pow hlow hhigh, mul_div_assoc, mul_div_assoc, ← sub_mul, abs_mul,
    abs_of_pos hunit, abs_sub_comm, mul_div_right_comm]
  exact mul_le_mul_of_nonneg_right (by linarith) hunit.le

/-- Two representable rationals are at least half a spacing apart. -/
theorem Representable.eq_of_abs_sub_lt {v r : ℚ} (hv : Representable v) (hr : Representable r)
    {t : ℕ} (ht : t + 1 ≤ leastExponent) (hlarge : 2 ^ 52 / 2 ^ t ≤ |v|)
    (hnear : |r - v| < 1 / 2 ^ (t + 1)) : r = v := by
  have hpow : (0 : ℚ) < 2 ^ (t + 1) := by positivity
  have hhalf : (2 : ℚ) ^ 52 / 2 ^ t = 2 ^ 52 / 2 ^ (t + 1) + 2 ^ 52 / 2 ^ (t + 1) := by
    rw [pow_succ (2 : ℚ) t]
    field_simp
    norm_num
  have hone : (1 : ℚ) / 2 ^ (t + 1) ≤ 2 ^ 52 / 2 ^ (t + 1) := by
    gcongr
    norm_num
  have hdiff : |v| - |r| ≤ |r - v| := abs_sub_comm r v ▸ abs_sub_abs_le_abs_sub v r
  have hpos : (0 : ℚ) < 2 ^ 52 / 2 ^ (t + 1) := by positivity
  obtain ⟨m, rfl⟩ := exists_int_of_representable hr ht (by linarith)
  obtain ⟨n, rfl⟩ := exists_int_of_representable hv ht (by linarith)
  rw [← sub_div, abs_div, abs_of_pos hpow, div_lt_div_iff_of_pos_right hpow] at hnear
  have hmn : |m - n| < 1 := by exact_mod_cast hnear
  rw [sub_eq_zero.mp (Int.abs_lt_one_iff.mp hmn)]

/-- What is less than a quarter of the spacing away from a value is rounded to it. -/
theorem Representable.nearestValue_eq_of_near {v q : ℚ} (hv : Representable v) {t : ℕ}
    (ht : t + 1 ≤ leastExponent) (hlarge : 2 ^ 52 / 2 ^ t ≤ |v|)
    (hnear : |v - q| < 1 / 2 ^ (t + 2)) : nearestValue q = v := by
  refine hv.eq_of_abs_sub_lt (representable_nearestValue q) ht hlarge ?_
  calc |nearestValue q - v| ≤ |nearestValue q - q| + |q - v| := abs_sub_le _ _ _
    _ ≤ |v - q| + |v - q| :=
        add_le_add (hv.abs_nearestValue_sub_le q) (abs_sub_comm q v).le
    _ < 1 / 2 ^ (t + 2) + 1 / 2 ^ (t + 2) := add_lt_add hnear hnear
    _ = 1 / 2 ^ (t + 1) := by
        rw [pow_succ (2 : ℚ) (t + 1)]
        field_simp
        norm_num

/-! ## There and back -/

/-- The value before a code is as far away as the one after it, unless the code is the first of a
spacing. -/
theorem codeValue_symmetric {before : ℕ}
    (h : (before + 1) % 4503599627370496 ≠ 0 ∨ before + 1 < 2 * 4503599627370496) :
    codeValue (before + 1) - codeValue before =
      codeValue (before + 1 + 1) - codeValue (before + 1) := by
  have hd : codeDoublings (before + 1) = codeDoublings before := by
    unfold codeDoublings
    omega
  rw [codeValue_succ (before + 1), codeValue_succ before, hd]
  ring

/-- Where the values on both sides are equally far away, what is no farther from a value than
something that is rounded to it is rounded to it, too. -/
theorem IsNearest.reflect {p q : ℚ} {code : ℕ} (hq : 0 ≤ q) (h : IsNearest q code)
    (hcode : code % 4503599627370496 ≠ 0 ∨ code < 2 * 4503599627370496)
    (hpq : |p - codeValue code| ≤ |q - codeValue code|) : IsNearest p code := by
  cases code with
  | zero =>
    rw [codeValue_zero, sub_zero, sub_zero, abs_of_nonneg hq] at hpq
    have hle : p ≤ q := (le_abs_self p).trans hpq
    refine ⟨?_, fun before hbefore ↦ absurd hbefore (Nat.succ_ne_zero before).symm⟩
    rcases h.above with habove | ⟨habove, heven⟩
    · exact .inl (by linarith)
    · rcases hle.lt_or_eq with hlt | rfl
      · exact .inl (by linarith)
      · exact .inr ⟨habove, heven⟩
  | succ before =>
    have hsymm := codeValue_symmetric hcode
    obtain ⟨hlow, hhigh⟩ := abs_le.mp hpq
    -- the distance is at most half of the one to either side, and half only from an even code
    have hhalf : 2 * |q - codeValue (before + 1)| < codeValue (before + 1) - codeValue before ∨
        2 * |q - codeValue (before + 1)| = codeValue (before + 1) - codeValue before ∧
          (before + 1) % 2 = 0 := by
      rcases abs_choice (q - codeValue (before + 1)) with hright | hleft
      · rw [hright]
        exact h.above.imp (fun h ↦ by linarith) fun h ↦ ⟨by linarith [h.1], h.2⟩
      · rw [hleft]
        exact (h.below before rfl).imp (fun h ↦ by linarith) fun h ↦ ⟨by linarith [h.1], h.2⟩
    generalize |q - codeValue (before + 1)| = d at hlow hhigh hhalf
    refine ⟨?_, fun b hb ↦ ?_⟩
    · rcases hhalf with hlt | ⟨heq, heven⟩
      · exact .inl (by linarith)
      · rcases hhigh.lt_or_eq with hlt | hhigh
        · exact .inl (by linarith)
        · exact .inr ⟨by linarith, heven⟩
    · obtain rfl : before = b := Nat.succ_injective hb
      rcases hhalf with hlt | ⟨heq, heven⟩
      · exact .inl (by linarith)
      · rcases hlow.lt_or_eq with hlt | hlow
        · exact .inl (by linarith)
        · exact .inr ⟨by linarith, heven⟩

/-- **There and back.** A rounded quotient of a representable rational comes back when it is
multiplied by the divisor and divided by it again. -/
theorem nearestValue_mul_div_cancel {r : ℚ} (hr : Representable r) {c : ℤ} (hc : 0 < c)
    (hc' : c ≤ 2 ^ 53) :
    nearestValue (nearestValue (nearestValue (r / c) * c) / c) = nearestValue (r / c) := by
  have hcpos : (0 : ℚ) < c := Int.cast_pos.mpr hc
  -- both sides change sign with the rational
  wlog hpos : 0 ≤ r with hneg
  · have h := hneg hr.neg hc hc' hcpos (by linarith)
    simp only [neg_div, nearestValue_neg, neg_mul] at h
    exact neg_injective h
  have hq : 0 ≤ r / c := div_nonneg hpos hcpos.le
  have hnearest := isNearest_nearestCode hq
  rw [nearestValue_of_nonneg hq]
  generalize nearestCode (r / c) = code at hnearest
  by_cases hcode : code % 4503599627370496 ≠ 0 ∨ code < 2 * 4503599627370496
  · have hproduct : 0 ≤ nearestValue (codeValue code * c) / c :=
      div_nonneg (nearestValue_nonneg (mul_nonneg (codeValue_nonneg code) hcpos.le)) hcpos.le
    refine nearestValue_of_isNearest hproduct (hnearest.reflect hq hcode ?_)
    -- the product is no farther from its exact value than `r`, and division keeps that
    have hle := hr.abs_nearestValue_sub_le (codeValue code * c)
    have hscale : ∀ p : ℚ, |p / c - codeValue code| = |p - codeValue code * c| / c := by
      intro p
      rw [show p / c - codeValue code = (p - codeValue code * c) / c by field_simp, abs_div,
        abs_of_pos hcpos]
    rw [hscale, hscale]
    exact div_le_div_of_nonneg_right hle hcpos.le
  · -- the first code of a spacing is a power of two, and its product is exact
    obtain ⟨k, hk⟩ : ∃ k, code = k * 4503599627370496 + 4503599627370496 :=
      ⟨code / 4503599627370496 - 1, by omega⟩
    have hexact : Representable (codeValue code * c) := by
      have h := representable_mul_two_pow (n := c) (abs_le.mpr ⟨by omega, hc'⟩) (k + 52)
      rw [codeValue, hk, unitsOfCode_add (.inr le_rfl) (by omega)]
      convert h using 1
      push_cast
      rw [pow_add]
      ring
    rw [hexact.nearestValue_eq, mul_div_cancel_right₀ _ hcpos.ne',
      (representable_codeValue code).nearestValue_eq]

end PocketCalculator
