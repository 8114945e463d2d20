import PocketCalculator.Proofs.Decimal.ReadBack

/-!
# The shortest decimal

A magnitude is written as a decimal on the coarsest grid that has a point which is read back as the
magnitude: no decimal with a larger exponent is read back (`Magnitude.le_exponent_shortest`).

The search looks at no more than two points of a grid. That is enough, because all that lies between
the magnitude and a point that is read back is read back as well, and so is the one of the two points
that lies there (`Magnitude.isReadFrom_below_or_above`). Nor is anything missed on the grids before
the first one, whose unit is larger than the magnitude already.
-/

namespace PocketCalculator

theorem nearestCode_mono {p q : ℚ} (hp : 0 ≤ p) (h : p ≤ q) : nearestCode p ≤ nearestCode q :=
  (isNearest_nearestCode hp).mono (isNearest_nearestCode (hp.trans h)) h

theorem tenToThe_pos (n : ℤ) : 0 < tenToThe n := by
  rw [tenToThe_eq]
  exact zpow_pos (by norm_num) n

namespace Magnitude

variable {m : Magnitude} {d : Decimal}

theorem isReadFrom_iff : m.isReadFrom d = true ↔ nearestCode d.toRat = m.code :=
  decide_eq_true_iff

theorem nearestCode_toRat (m : Magnitude) : nearestCode m.toRat = m.code := by
  rw [m.toRat_eq, nearestCode_codeValue]

theorem toRat_nonneg (m : Magnitude) : 0 ≤ m.toRat := by
  rw [m.toRat_eq]
  exact codeValue_nonneg m.code

/-! ## One grid -/

theorem isReadFrom_of_between {between : Decimal} (h : m.isReadFrom d = true)
    (hbetween : d.toRat ≤ between.toRat ∧ between.toRat ≤ m.toRat ∨
      m.toRat ≤ between.toRat ∧ between.toRat ≤ d.toRat) : m.isReadFrom between = true := by
  have hcode := m.nearestCode_toRat
  rw [isReadFrom_iff] at h ⊢
  rcases hbetween with ⟨hlow, hhigh⟩ | ⟨hlow, hhigh⟩
  · have hlow' := nearestCode_mono d.toRat_nonneg hlow
    have hhigh' := nearestCode_mono between.toRat_nonneg hhigh
    omega
  · have hlow' := nearestCode_mono m.toRat_nonneg hlow
    have hhigh' := nearestCode_mono between.toRat_nonneg hhigh
    omega

/-- If any point of a grid is read back, then one of the two points around the magnitude is. -/
theorem isReadFrom_below_or_above (h : m.isReadFrom d = true) :
    m.isReadFrom ⟨(m.toRat / tenToThe d.exponent).floor.toNat, d.exponent⟩ = true ∨
      m.isReadFrom ⟨(m.toRat / tenToThe d.exponent).ceil.toNat, d.exponent⟩ = true := by
  have hunit := tenToThe_pos d.exponent
  have hexact : m.toRat / tenToThe d.exponent * tenToThe d.exponent = m.toRat :=
    div_mul_cancel₀ _ hunit.ne'
  have hquotient : 0 ≤ m.toRat / tenToThe d.exponent := div_nonneg m.toRat_nonneg hunit.le
  generalize m.toRat / tenToThe d.exponent = q at hexact hquotient
  have hfloor : ((q.floor.toNat : ℕ) : ℚ) = q.floor := by
    exact_mod_cast Int.toNat_of_nonneg (Rat.le_floor_iff.mpr hquotient)
  have hceil : ((q.ceil.toNat : ℕ) : ℚ) = q.ceil := by
    have hnonneg : (0 : ℚ) ≤ q.ceil := hquotient.trans Rat.le_ceil
    exact_mod_cast Int.toNat_of_nonneg (Int.cast_nonneg_iff.mp hnonneg)
  rcases le_total (d.coefficient : ℚ) q with hle | hle
  · have hpoint : (d.coefficient : ℚ) ≤ q.floor := by
      exact_mod_cast Rat.le_floor_iff.mpr (by exact_mod_cast hle)
    refine .inl (isReadFrom_of_between h (.inl ⟨?_, ?_⟩))
    · rw [Decimal.toRat, Decimal.toRat, hfloor]
      exact mul_le_mul_of_nonneg_right hpoint hunit.le
    · rw [Decimal.toRat, hfloor, ← hexact]
      exact mul_le_mul_of_nonneg_right (Rat.floor_le q) hunit.le
  · have hpoint : (q.ceil : ℚ) ≤ d.coefficient := by
      exact_mod_cast Rat.ceil_le_iff.mpr (by exact_mod_cast hle)
    refine .inr (isReadFrom_of_between h (.inr ⟨?_, ?_⟩))
    · rw [Decimal.toRat, hceil, ← hexact]
      exact mul_le_mul_of_nonneg_right Rat.le_ceil hunit.le
    · rw [Decimal.toRat, Decimal.toRat, hceil]
      exact mul_le_mul_of_nonneg_right hpoint hunit.le

theorem gridPoint?_ne_none (h : m.isReadFrom d = true) : m.gridPoint? d.exponent ≠ none := by
  have hpoint := isReadFrom_below_or_above h
  rw [gridPoint?]
  split_ifs with hbelow habove
  · exact Option.some_ne_none _
  · exact Option.some_ne_none _
  · -- without the upper point, the lower one would have been taken
    exact absurd (hpoint.resolve_right habove) (by simpa [habove] using hbelow)

/-! ## The search -/

theorem le_exponent_shortestFrom (h : m.isReadFrom d = true) {j : ℤ} {grids : ℕ}
    (hfirst : d.exponent ≤ j) (hlast : j ≤ finestGrid + grids) :
    d.exponent ≤ (m.shortestFrom j grids).exponent := by
  induction grids generalizing j with
  | zero => exact hfirst.trans (hlast.trans_eq (add_zero finestGrid))
  | succ grids ih =>
    rw [shortestFrom]
    rcases hpoint : m.gridPoint? j with _ | point
    · have hne : d.exponent ≠ j := fun heq ↦ gridPoint?_ne_none h (heq ▸ hpoint)
      exact ih (by omega) (by push_cast at hlast; omega)
    · exact hfirst.trans_eq (exponent_of_gridPoint? hpoint).symm

theorem toRat_lt_ten_pow_firstGrid (m : Magnitude) : m.toRat < 10 ^ m.firstGrid := by
  have hdigits : m.toRat.floor.toNat < 10 ^ m.firstGrid :=
    (Nat.length_toDigits_le_iff (by decide) Nat.length_toDigits_pos).mp le_rfl
  have hfloor : m.toRat.floor < 10 ^ m.firstGrid := by
    rw [← Int.toNat_of_nonneg (Rat.le_floor_iff.mpr m.toRat_nonneg)]
    exact_mod_cast hdigits
  have hcast := Rat.floor_lt_iff.mp hfloor
  push_cast at hcast
  exact hcast

/-- Beyond the first grid, only zero is read back. -/
theorem exponent_le_firstGrid (hm : m ≠ .zero) (h : m.isReadFrom d = true) :
    d.exponent ≤ m.firstGrid := by
  rw [isReadFrom_iff] at h
  by_contra hlarge
  have hcoefficient : 1 ≤ d.coefficient := by
    refine Nat.one_le_iff_ne_zero.mpr fun hzero ↦ hm ?_
    rw [Decimal.toRat, hzero, Nat.cast_zero, zero_mul, ← codeValue_zero, nearestCode_codeValue] at h
    cases m
    cases h
    rfl
  have hpow : (10 : ℚ) ^ (m.firstGrid + 1) ≤ d.toRat := by
    calc (10 : ℚ) ^ (m.firstGrid + 1) = 10 ^ ((m.firstGrid + 1 : ℕ) : ℤ) := (zpow_natCast ..).symm
      _ ≤ 10 ^ d.exponent := zpow_le_zpow_right₀ (by norm_num) (by push_cast; omega)
      _ ≤ d.coefficient * 10 ^ d.exponent :=
          le_mul_of_one_le_left (zpow_nonneg (by norm_num) _) (by exact_mod_cast hcoefficient)
      _ = d.toRat := d.toRat_eq.symm
  have hone : (1 : ℚ) ≤ 10 ^ m.firstGrid := one_le_pow₀ (by norm_num)
  rw [pow_succ] at hpow
  -- the nearest value to the decimal is not a tenth of it
  have hvalue : nearestValue d.toRat = m.toRat := by
    rw [nearestValue_of_nonneg d.toRat_nonneg, h, m.toRat_eq]
  have herror := (abs_le.mp (abs_nearestValue_sub_le_div (by linarith : 1 ≤ d.toRat))).1
  rw [hvalue] at herror
  linarith [m.toRat_lt_ten_pow_firstGrid]

/-- **The shortest decimal.** No decimal that is read back as a magnitude has fewer places. -/
theorem le_exponent_shortest (hm : m ≠ .zero) (h : m.isReadFrom d = true) :
    d.exponent ≤ m.shortest.exponent := by
  rw [shortest]
  refine le_exponent_shortestFrom h (exponent_le_firstGrid hm h) ?_
  rw [finestGrid]
  push_cast
  omega

end Magnitude

end PocketCalculator
