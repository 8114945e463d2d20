import PocketCalculator.Proofs.Calculation.Powers

/-!
# Rounding zero

Zero has no decimals to lose, so that it should be the result of rounding it to any number of
places. But a number is raised before it is scaled, and zero is raised to `2 ^ -52`. What becomes of
that depends on the power of ten:

* Up to fifteen places, the scaled number is less than a half, and zero is what it is rounded to.
* From sixteen places on, it is at least one. The whole number next to it is scaled back to about
  `2 ^ -52`, and zero is rounded to that.
* Where the power of ten is infinite, nothing is rounded, and the negative zero keeps its sign.

So the numbers of places are known at which a zero is rounded to the positive zero
(`roundToPlaces_zero_eq_iff`).
-/

namespace PocketCalculator

open Binary64 (epsilon placesFactor)

/-! ## In rationals -/

theorem nearestValue_epsilon : nearestValue (1 / 2 ^ 52) = 1 / 2 ^ 52 :=
  (representable_one_div_two_pow (by decide)).nearestValue_eq

/-- Scaled by a small factor, what zero is raised to is less than a half. -/
theorem roundedQuotient_zero_of_le {factor : ℚ} (hpos : 0 ≤ factor) (h : factor ≤ 2 ^ 50) :
    roundedQuotient factor 0 = 0 := by
  have hquarter : Representable (1 / 2 ^ 2) := representable_one_div_two_pow (by decide)
  have hscaled : |nearestValue (1 / 2 ^ 52 * factor)| ≤ 1 / 2 ^ 2 := by
    refine hquarter.abs_nearestValue_le ?_
    rw [abs_of_nonneg (mul_nonneg (by positivity) hpos)]
    linarith
  have hround : round (nearestValue (1 / 2 ^ 52 * factor)) = 0 := by
    refine round_eq_iff.mpr ?_
    obtain ⟨hlow, hhigh⟩ := abs_le.mp hscaled
    push_cast
    exact ⟨by linarith, by linarith⟩
  rw [roundedQuotient, zero_add, nearestValue_epsilon, hround, Int.cast_zero, zero_div,
    nearestValue_zero]

/-- Scaled by a large factor, it is not. -/
theorem roundedQuotient_zero_pos {factor : ℚ} (h : 2 ^ 52 ≤ factor) (h' : factor ≤ 2 ^ 1024) :
    0 < roundedQuotient factor 0 := by
  have hpos : 0 < factor := lt_of_lt_of_le (by positivity) h
  have hscaled : 1 ≤ nearestValue (1 / 2 ^ 52 * factor) :=
    representable_one.le_nearestValue (by linarith)
  have hround : (1 : ℚ) ≤ round (nearestValue (1 / 2 ^ 52 * factor)) :=
    calc (1 : ℚ) = round (1 : ℚ) := by rw [round_one, Int.cast_one]
      _ ≤ round (nearestValue (1 / 2 ^ 52 * factor)) := Int.cast_le.mpr (round_mono hscaled)
  have hleast : Representable (1 / 2 ^ 1024) := representable_one_div_two_pow (by decide)
  rw [roundedQuotient, zero_add, nearestValue_epsilon]
  calc (0 : ℚ) < 1 / 2 ^ 1024 := by positivity
    _ ≤ nearestValue (round (nearestValue (1 / 2 ^ 52 * factor)) / factor) :=
        hleast.le_nearestValue (div_le_div₀ (zero_le_one.trans hround) hround hpos h')

/-! ## In numbers -/

variable {s : Bool} {places : ℕ}

theorem isFinite_scaled_zero (h : (placesFactor places).isFinite = true) :
    ((Binary64.zero s + epsilon) * placesFactor places).isFinite = true := by
  rw [isFinite_scaled_iff rfl h, Binary64.toRat_zero, zero_add, nearestValue_epsilon]
  refine Binary64.isFinite_ofRat_of_le_toRat h ?_
  rw [abs_mul]
  exact mul_le_of_le_one_left (abs_nonneg _) (by rw [abs_of_pos (by positivity)]; norm_num)

theorem two_pow_le_placesFactor (hlow : 16 ≤ places) (hhigh : places ≤ 308) :
    2 ^ 52 ≤ (placesFactor places).toRat := by
  have hpow : (10 : ℚ) ^ 16 ≤ 10 ^ places := pow_le_pow_right₀ (by norm_num) hlow
  have hnear := (abs_le.mp (abs_toRat_placesFactor_sub_le hhigh)).1
  linarith

theorem roundedQuotient_placesFactor_zero_iff (hplaces : places ≤ 308) :
    roundedQuotient (placesFactor places).toRat 0 = 0 ↔ places ≤ 15 := by
  constructor
  · intro h
    by_contra hlarge
    have hbound := (Binary64.toRat_le_largestValue (placesFactor places)).trans
      Binary64.largestValue_lt_two_pow.le
    exact (roundedQuotient_zero_pos (two_pow_le_placesFactor (by omega) hplaces) hbound).ne' h
  · intro h
    rw [(toRat_placesFactor (h.trans (by norm_num))).2]
    have hpow : (10 : ℚ) ^ places ≤ 10 ^ 15 := pow_le_pow_right₀ (by norm_num) h
    exact roundedQuotient_zero_of_le (by positivity) (hpow.trans (by norm_num))

/-- **Rounding a zero.** It gives the positive zero exactly for up to fifteen places, and where
nothing is rounded and the zero is positive itself. -/
theorem roundToPlaces_zero_eq_iff :
    (Binary64.zero s).roundToPlaces places = .zero false ↔
      places ≤ 15 ∨ 308 < places ∧ s = false := by
  by_cases hplaces : places ≤ 308
  · have hscaled := isFinite_scaled_zero (s := s) (isFinite_placesFactor_iff.mpr hplaces)
    have hvalue := toRat_roundToPlaces_eq (x := .zero s) rfl hscaled
    have hzero : (Binary64.zero s).roundToPlaces places = .zero false ↔
        roundedQuotient (placesFactor places).toRat 0 = 0 := by
      rw [← Binary64.toRat_zero s, ← hvalue, Binary64.toRat_zero s, ← Binary64.toRat_zero false]
      exact ⟨congrArg Binary64.toRat, Binary64.eq_of_toRat_eq (isFinite_roundToPlaces rfl places)
        rfl (roundToPlaces_ne_negative_zero_of_isFinite hscaled) (by decide)⟩
    rw [hzero, roundedQuotient_placesFactor_zero_iff hplaces,
      or_iff_left fun h ↦ not_lt.mpr hplaces h.1]
  · have hoverflow : ((Binary64.zero s + epsilon) * placesFactor places).isFinite = false := by
      rw [← Bool.not_eq_true]
      exact fun h ↦ hplaces (isFinite_placesFactor_iff.mp (Binary64.isFinite_of_mul h).2)
    rw [Binary64.roundToPlaces_of_overflow hoverflow, Binary64.zero_inj,
      or_iff_right fun h ↦ hplaces (h.trans (by norm_num)), and_iff_right (not_le.mp hplaces)]

/-! ## In expressions -/

/-- **Zero stays zero** up to fifteen places. From sixteen places on, an expression with the value
zero has another result, until the power of ten is infinite and the result is the value itself. -/
theorem roundedValue?_of_isZero_iff {places : ℕ} {expression : Text}
    (h : (tokensValue (scan expression)).isZero = true) :
    roundedValue? places expression = some (.zero false) ↔
      places ≤ 15 ∨ 308 < places ∧ tokensValue (scan expression) = .zero false := by
  obtain ⟨s, hs⟩ := Binary64.isZero_iff.mp h
  rw [roundedValue?_eq_some_iff, hs, roundToPlaces_zero_eq_iff, Binary64.zero_inj]
  exact and_iff_right rfl

/-- The value of `-0*5` is `-0`. With twelve places its sign is lost and with 309 it is kept, as is
that of `0-0*5`, which is `0`. -/
theorem roundedValue?_negative_zero_times_five :
    let expression : Text := ['-', '0', '*', '5']
    (tokensValue (scan expression)).isZero = true ∧
      roundedValue? 12 expression = some (.zero false) ∧
      roundedValue? 309 expression ≠ some (.zero false) ∧
      roundedValue? 309 ('0' :: expression) = some (.zero false) := by
  intro expression
  have hzero : (tokensValue (scan expression)).isZero = true := by decide +kernel
  have hnegative : tokensValue (scan expression) ≠ .zero false := by decide +kernel
  have hpositive : tokensValue (scan ('0' :: expression)) = .zero false := by decide +kernel
  have hkept : ¬ (309 ≤ 15 ∨ 308 < 309 ∧ tokensValue (scan expression) = .zero false) := by
    rintro (hplaces | ⟨-, hvalue⟩)
    · exact absurd hplaces (by norm_num)
    · exact hnegative hvalue
  refine ⟨hzero, (roundedValue?_of_isZero_iff hzero).mpr (.inl (by norm_num)),
    mt (roundedValue?_of_isZero_iff hzero).mp hkept, ?_⟩
  exact (roundedValue?_of_isZero_iff (Binary64.isZero_iff.mpr ⟨false, hpositive⟩)).mpr
    (.inr ⟨by norm_num, hpositive⟩)

/-- With sixteen places nothing at all has the result `0.0000000000000002`, and with 309 places the
result of `-0` is the negative zero. -/
theorem exists_zero_that_is_lost :
    (tokensValue (scan [])).isZero = true ∧
      roundedValue? 16 [] = some (.ofBits 0x3cacd2b297d889bc) ∧
      Binary64.ofBits 0x3cacd2b297d889bc ≠ .zero false ∧
      (tokensValue (scan ['-', '0'])).isZero = true ∧
      roundedValue? 309 ['-', '0'] = some (.zero true) := by
  refine ⟨?_, ?_, ?_, ?_, ?_⟩ <;> decide +kernel

end PocketCalculator
