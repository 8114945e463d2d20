import PocketCalculator.Keypad.Basic
import PocketCalculator.Proofs.Calculation.Drift
import PocketCalculator.Proofs.Decimal.ReadBack

/-!
# Calculating a result again

The text of a result can be calculated again, and one expects the result to come back. It is read
back as it was, so the question is only whether rounding it once more changes it. By default results
are rounded to twelve places, and then the results that change are those that drift
(`roundedValue?_toText_eq_iff`).

One of them is the result of `4096.1`, which is `4096.100000000001`. Its result is
`4096.100000000002`.
-/

namespace PocketCalculator

open Binary64 (epsilon placesFactor)

/-! ## Rounding twice -/

theorem isFinite_scaled {x : Binary64} (hx : x.isFinite = true) {places : ℕ} (hplaces : places ≤ 22)
    (h : |x.toRat| ≤ 2 ^ 52) : ((x + epsilon) * placesFactor places).isFinite = true := by
  obtain ⟨hfactor, hfactor'⟩ := toRat_placesFactor hplaces
  have hraised : |nearestValue (x.toRat + 1 / 2 ^ 52)| ≤ 2 ^ 53 := by
    refine (representable_two_pow _).abs_nearestValue_le ((abs_add_le _ _).trans ?_)
    rw [abs_of_pos (by norm_num : (0 : ℚ) < 1 / 2 ^ 52)]
    linarith
  rw [isFinite_scaled_iff hx hfactor, hfactor']
  refine Binary64.isFinite_ofRat_of_le ?_
  have hten : (10 : ℚ) ^ places ≤ 2 ^ 100 :=
    (pow_le_pow_right₀ (by norm_num) hplaces).trans (by norm_num)
  rw [abs_mul, abs_of_pos (by positivity : (0 : ℚ) < 10 ^ places)]
  calc |nearestValue (x.toRat + 1 / 2 ^ 52)| * 10 ^ places ≤ 2 ^ 53 * 2 ^ 100 :=
        mul_le_mul hraised hten (by positivity) (by positivity)
    _ = 2 ^ 153 := by rw [← pow_add]
    _ ≤ 2 ^ 1000 := pow_le_pow_right₀ one_le_two (by norm_num)

theorem roundToPlaces_ne_negative_zero {x : Binary64} {places : ℕ} (hplaces : places ≤ 22) :
    x.roundToPlaces places ≠ .zero true := by
  by_cases h : ((x + epsilon) * placesFactor places).isFinite = true
  · exact roundToPlaces_ne_negative_zero_of_isFinite h
  · rw [Binary64.roundToPlaces_of_overflow (Bool.not_eq_true _ ▸ h)]
    rintro rfl
    refine h (isFinite_scaled rfl hplaces ?_)
    rw [Binary64.toRat_zero, abs_zero]
    positivity

/-- **Rounding twice** to twelve places changes exactly the numbers whose values drift. -/
theorem roundToPlaces_twice_eq_iff {x : Binary64} (hx : x.isFinite = true) :
    (x.roundToPlaces 12).roundToPlaces 12 = x.roundToPlaces 12 ↔
      ¬ Drifts (x.roundToPlaces 12).toRat := by
  have hfinite := isFinite_roundToPlaces hx 12
  by_cases hagain : ((x.roundToPlaces 12 + epsilon) * placesFactor 12).isFinite = true
  · have heq : (x.roundToPlaces 12).roundToPlaces 12 = x.roundToPlaces 12 ↔
        roundedQuotient (10 ^ 12) (x.roundToPlaces 12).toRat = (x.roundToPlaces 12).toRat := by
      rw [← toRat_roundToPlaces hfinite (by norm_num) hagain]
      exact ⟨congrArg Binary64.toRat, Binary64.eq_of_toRat_eq (isFinite_roundToPlaces hfinite 12)
        hfinite (roundToPlaces_ne_negative_zero (by norm_num))
        (roundToPlaces_ne_negative_zero (by norm_num))⟩
    have h : ((x + epsilon) * placesFactor 12).isFinite = true := by
      -- a number that was not rounded at first would not be rounded now
      by_contra hoverflow
      rw [Binary64.roundToPlaces_of_overflow (Bool.not_eq_true _ ▸ hoverflow)] at hagain
      exact hoverflow hagain
    obtain ⟨n, hn, hvalue⟩ := exists_roundedQuotient_eq (10 ^ 12) x.toRat
    rw [heq, roundedQuotient_eq_iff hn]
    rw [toRat_roundToPlaces hx (by norm_num) h, hvalue]
  · refine iff_of_true (Binary64.roundToPlaces_of_overflow (Bool.not_eq_true _ ▸ hagain)) ?_
    rintro ⟨-, hsmall, -⟩
    have habs := abs_nonneg (x.roundToPlaces 12).toRat
    exact hagain (isFinite_scaled hfinite (by norm_num) (by linarith))

/-! ## Calculating twice -/

theorem clearZeroSign_eq {x : Binary64} (hx : x ≠ .zero true) : x.clearZeroSign = x := by
  rw [Binary64.clearZeroSign]
  split_ifs with hzero
  · obtain ⟨s, rfl⟩ := Binary64.isZero_iff.mp hzero
    cases s
    · rfl
    · exact absurd rfl hx
  · rfl

theorem roundedValue?_toText {x : Binary64} (hx : x.isFinite = true) (hzero : x ≠ .zero true)
    (places : ℕ) : roundedValue? places x.toText = some (x.roundToPlaces places) := by
  rw [roundedValue?_eq_some_iff, Binary64.tokensValue_scan_toText hx, clearZeroSign_eq hzero]
  exact ⟨hx, rfl⟩

theorem toText_inj {x y : Binary64} (hx : x.isFinite = true) (hy : y.isFinite = true)
    (hx₀ : x ≠ .zero true) (hy₀ : y ≠ .zero true) : x.toText = y.toText ↔ x = y := by
  refine ⟨fun h ↦ ?_, congrArg Binary64.toText⟩
  have hread := Binary64.readNumber?_toText hx
  rw [h, Binary64.readNumber?_toText hy, clearZeroSign_eq hx₀, clearZeroSign_eq hy₀] at hread
  exact (Option.some_inj.mp hread).symm

/-- **Idempotence.** A result is the result of its text exactly if its value does not drift. Under
the same condition the keypad stays as it is when an evaluation has succeeded and the key is pressed
again. -/
theorem roundedValue?_toText_eq_iff {expression : Text} {value : Binary64}
    (h : roundedValue? ({} : Options).places expression = some value) :
    (roundedValue? ({} : Options).places value.toText = some value ↔ ¬ Drifts value.toRat) ∧
      ∀ keypad : Keypad, keypad.expression = expression →
        ((keypad.press ({} : Options).places .equals).press ({} : Options).places .equals =
            keypad.press ({} : Options).places .equals ↔
          ¬ Drifts value.toRat) := by
  change roundedValue? 12 expression = some value at h
  obtain ⟨hfinite, rfl⟩ := roundedValue?_eq_some_iff.mp h
  generalize tokensValue (scan expression) = x at h hfinite
  have hvalue := isFinite_roundToPlaces hfinite 12
  have hzero : x.roundToPlaces 12 ≠ .zero true := roundToPlaces_ne_negative_zero (by norm_num)
  have hagain := roundedValue?_toText hvalue hzero 12
  constructor
  · change roundedValue? 12 _ = _ ↔ _
    rw [hagain, Option.some_inj, roundToPlaces_twice_eq_iff hfinite]
  · rintro keypad rfl
    have hpress : keypad.press 12 .equals =
        ⟨(x.roundToPlaces 12).toText, (x.roundToPlaces 12).toText⟩ := by
      rw [Keypad.press, Keypad.evaluated, h]
    have hpress' : (keypad.press 12 .equals).press 12 .equals =
        ⟨((x.roundToPlaces 12).roundToPlaces 12).toText,
          ((x.roundToPlaces 12).roundToPlaces 12).toText⟩ := by
      rw [hpress, Keypad.press, Keypad.evaluated, hagain]
    change (keypad.press 12 .equals).press 12 .equals = keypad.press 12 .equals ↔ _
    rw [hpress', hpress, Keypad.mk.injEq, and_self, ← roundToPlaces_twice_eq_iff hfinite]
    exact toText_inj (isFinite_roundToPlaces hvalue 12) hvalue
      (roundToPlaces_ne_negative_zero (by norm_num)) hzero

/-- The result of `1/3` comes back, and evaluating it again changes nothing. -/
theorem roundedValue?_toText_one_third :
    let keypad : Keypad := { expression := ['1', '/', '3'] }
    ∃ value, roundedValue? ({} : Options).places keypad.expression = some value ∧
      value.toText = "0.333333333333".toList ∧
      roundedValue? ({} : Options).places value.toText = some value ∧
      (keypad.press ({} : Options).places .equals).press ({} : Options).places .equals =
        keypad.press ({} : Options).places .equals := by
  intro keypad
  have h : roundedValue? ({} : Options).places keypad.expression =
      some (.ofBits 0x3fd5555555553de1) := by
    decide +kernel
  have hdrifts : ¬ Drifts (Binary64.ofBits 0x3fd5555555553de1).toRat := by decide +kernel
  obtain ⟨hresult, hkeypad⟩ := roundedValue?_toText_eq_iff h
  exact ⟨_, h, by decide +kernel, hresult.mpr hdrifts, (hkeypad keypad rfl).mpr hdrifts⟩

/-- The result of `4096.1` is `4096.100000000001`, and that does not come back. -/
theorem exists_result_that_drifts :
    ∃ value, roundedValue? ({} : Options).places ['4', '0', '9', '6', '.', '1'] = some value ∧
      roundedValue? ({} : Options).places value.toText ≠ some value := by
  refine ⟨.ofBits 0x40b000199999999b, by decide +kernel, ?_⟩
  change roundedValue? 12 _ ≠ _
  rw [roundedValue?_toText (by decide +kernel) (by decide +kernel), Ne, Option.some_inj]
  decide +kernel

end PocketCalculator
