import PocketCalculator.Proofs.Calculation.Literals
import PocketCalculator.Proofs.Decimal.Shortest

/-!
# Results

Whether an expression has a result is decided before anything is rounded. Rounding keeps a finite
number finite, however many places are asked for, and makes no other number finite, so the number of
places has no part in it (`isSome_roundedValue?_iff`).

A result has no more decimals than places were asked for (`decimalPlaces_toText_le`). It is the
number nearest to a whole number of units of the last place, so that a decimal with as many places is
read back as it, and the decimal it is written as has no more places than any that is. A number that
is left as it is because scaling it overflows is whole.
-/

namespace PocketCalculator

open Binary64 (epsilon placesFactor signText)

/-! ## Whether there is a result -/

/-- What is not finite is left as it is, since nothing finite comes of raising and scaling it. -/
theorem isFinite_roundToPlaces_eq (x : Binary64) (places : ℕ) :
    (x.roundToPlaces places).isFinite = x.isFinite := by
  by_cases hx : x.isFinite = true
  · rw [isFinite_roundToPlaces hx, hx]
  · rw [Binary64.roundToPlaces_of_overflow]
    rw [← Bool.not_eq_true]
    exact fun hscaled ↦ hx (Binary64.isFinite_of_add (Binary64.isFinite_of_mul hscaled).1).1

/-- **Whether there is a result** does not depend on the number of places. There is one exactly if
the value of the expression is finite, and then the result is finite, too, because rounding makes no
number that is not finite out of one that is. -/
theorem isSome_roundedValue?_iff (places : ℕ) (expression : Text) :
    ((roundedValue? places expression).isSome = true ↔
        (tokensValue (scan expression)).isFinite = true) ∧
      (∀ value, roundedValue? places expression = some value → value.isFinite = true) ∧
      ∀ x : Binary64, (x.roundToPlaces places).isFinite = x.isFinite := by
  refine ⟨?_, fun value ↦ isFinite_of_roundedValue?, fun x ↦ isFinite_roundToPlaces_eq x places⟩
  rw [Option.isSome_iff_ne_none, Ne, roundedValue?_eq_none_iff, Bool.not_eq_false]

/-- The value of `-1/4503599627370496` is raised to zero, and with 309 places zero is multiplied by
infinity. -/
theorem isSome_roundedValue?_negative_epsilon :
    let expression : Text := ['-', '1', '/', '4', '5', '0', '3', '5', '9', '9', '6', '2', '7', '3',
      '7', '0', '4', '9', '6']
    (tokensValue (scan expression) + epsilon) * placesFactor 309 = .nan ∧
      (roundedValue? 309 expression).isSome = true := by
  intro expression
  have hfinite : (tokensValue (scan expression)).isFinite = true := by decide +kernel
  exact ⟨by decide +kernel, (isSome_roundedValue?_iff 309 expression).1.mpr hfinite⟩

/-! ## Decimals that are read back -/

theorem Magnitude.isReadFrom_of_nearestValue {s : Bool} {m : Magnitude} {d : Decimal} {q : ℚ}
    (hq : nearestValue q = (Binary64.finite s m).toRat) (hd : d.toRat = |q|) :
    m.isReadFrom d = true := by
  have habs := abs_nearestValue q
  rw [hq, Binary64.abs_toRat_finite, nearestValue_of_nonneg (abs_nonneg q), ← hd] at habs
  exact isReadFrom_iff.mpr (codeValue_strictMono.injective habs).symm

theorem Decimal.toRat_natAbs (n : ℤ) (places : ℕ) :
    (⟨n.natAbs, -places⟩ : Decimal).toRat = |(n : ℚ) / 10 ^ places| := by
  have hpow : (0 : ℚ) < 10 ^ places := by positivity
  rw [toRat_eq, zpow_neg, zpow_natCast, ← div_eq_mul_inv, abs_div, abs_of_pos hpow,
    Nat.cast_natAbs, Int.cast_abs]

/-- What a number is rounded to is read from a decimal with no more places. -/
theorem exists_isReadFrom_of_roundToPlaces {x : Binary64} (hx : x.isFinite = true) {places : ℕ}
    (hplaces : places ≤ 22) {s : Bool} {m : Magnitude} (h : x.roundToPlaces places = .finite s m) :
    ∃ d : Decimal, -places ≤ d.exponent ∧ m.isReadFrom d = true := by
  by_cases hscaled : ((x + epsilon) * placesFactor places).isFinite = true
  · obtain ⟨n, -, hvalue⟩ := exists_roundedQuotient_eq (10 ^ places) x.toRat
    rw [← toRat_roundToPlaces hx hplaces hscaled, h] at hvalue
    exact ⟨⟨n.natAbs, -places⟩, le_rfl,
      Magnitude.isReadFrom_of_nearestValue hvalue.symm (Decimal.toRat_natAbs n places)⟩
  · rw [Binary64.roundToPlaces_of_overflow (Bool.not_eq_true _ ▸ hscaled)] at h
    have hlarge : ¬ |x.toRat| < 2 ^ 52 := fun hsmall ↦
      hscaled (isFinite_scaled hx hplaces hsmall.le)
    have hrep := Binary64.representable_toRat x
    obtain ⟨n, hn⟩ := hrep.eq_intCast_or_abs_lt.resolve_right hlarge
    have hvalue : nearestValue ((n : ℚ) / 10 ^ 0) = (Binary64.finite s m).toRat := by
      rw [pow_zero, div_one, ← hn, hrep.nearestValue_eq, h]
    exact ⟨⟨n.natAbs, -(0 : ℕ)⟩, neg_le_neg (Int.natCast_nonneg places),
      Magnitude.isReadFrom_of_nearestValue hvalue (Decimal.toRat_natAbs n 0)⟩

/-! ## Decimals that are written -/

theorem decimalPlaces_signText_append (negative : Bool) (text : Text) :
    decimalPlaces (signText negative ++ text) = decimalPlaces text := by
  cases negative <;> rfl

theorem Decimal.decimalPlaces_toText (d : Decimal) :
    (decimalPlaces d.toText : ℤ) = max 0 (-d.exponent) := by
  obtain ⟨coefficient, exponent⟩ := d
  have hdigits := isDigit_of_mem_toDigits coefficient
  cases exponent with
  | ofNat n =>
    have hplaces : decimalPlaces (⟨coefficient, .ofNat n⟩ : Decimal).toText = 0 :=
      decimalPlaces_whole (List.forall_mem_append.mpr ⟨hdigits, isDigit_of_mem_replicate n⟩)
    rw [hplaces]
    exact (max_eq_left (neg_nonpos.mpr (Int.natCast_nonneg n))).symm
  | negSucc n =>
    obtain ⟨whole, fraction, htext, -, -, hlength, hwhole, -⟩ := pointed_eq _ (n + 1) hdigits
    rw [toText_negSucc, htext, decimalPlaces_pointed hwhole, hlength]
    exact (max_eq_right (Int.natCast_nonneg (n + 1))).symm

/-- **Decimals.** With up to 22 places, the text of a result, which is read back as the result, has
at most as many digits after the point as places were asked for. -/
theorem decimalPlaces_toText_le {places : ℕ} (hplaces : places ≤ 22) {expression : Text}
    {value : Binary64} (h : roundedValue? places expression = some value) :
    decimalPlaces value.toText ≤ places ∧ readNumber? value.toText = some value := by
  have hvalue := isFinite_of_roundedValue? h
  obtain ⟨hfinite, hrounded⟩ := roundedValue?_eq_some_iff.mp h
  refine ⟨?_, ?_⟩
  · obtain ⟨s, m, rfl⟩ := Binary64.isFinite_iff.mp hvalue
    by_cases hm : m = .zero
    · subst hm
      exact Nat.zero_le places
    · obtain ⟨d, hexponent, hread⟩ := exists_isReadFrom_of_roundToPlaces hfinite hplaces hrounded
      have hshortest := Magnitude.le_exponent_shortest hm hread
      have htext := m.shortest.decimalPlaces_toText
      rw [Binary64.toText_finite hm, decimalPlaces_signText_append]
      omega
  · rw [Binary64.readNumber?_toText hvalue,
      clearZeroSign_eq (hrounded ▸ roundToPlaces_ne_negative_zero hplaces)]

/-- Two thirds, rounded to two places. -/
theorem decimalPlaces_toText_two_thirds :
    ∃ value, roundedValue? 2 ['2', '/', '3'] = some value ∧ value.toText = ['0', '.', '6', '7'] ∧
      decimalPlaces value.toText ≤ 2 := by
  have h : roundedValue? 2 ['2', '/', '3'] = some (.ofBits 0x3fe570a3d70a3d71) := by decide +kernel
  exact ⟨_, h, by decide +kernel, (decimalPlaces_toText_le (by norm_num) h).1⟩

end PocketCalculator
