import PocketCalculator.Proofs.Calculation.Idempotence
import PocketCalculator.Proofs.Calculation.Stray

/-!
# Literals

A literal with up to twelve digits after the point denotes a whole number of units of `10 ^ -12`.
Its value is the nearest one to that number of units, and rounding it to twelve places by default
should leave it as it is. It does so exactly if the value neither drifts nor strays
(`roundedValue?_literal_eq_iff`), even if the literal has so few digits that they could all be kept:
the result of `4096.1` is `4096.100000000001`, and that of `36893489` is `36893488.99999999`.

Below 4096 every such literal is its own result, and so is every whole number below `2 ^ 25`.
-/

namespace PocketCalculator

open Binary64 (epsilon placesFactor signText)

/-! ## Digits -/

/-- How many digits come after the point. -/
def decimalPlaces (text : Text) : ℕ := ((text.dropWhile (· ≠ '.')).drop 1).length

/-- How many digits there are from the first one that is not a zero. -/
def significantDigits (text : Text) : ℕ := ((text.filter Char.isDigit).dropWhile (· = '0')).length

theorem ofDigitChars_lt {digits : Text} (h : ∀ c ∈ digits, c.isDigit = true) (start : ℕ) :
    Nat.ofDigitChars 10 digits start < (start + 1) * 10 ^ digits.length := by
  induction digits generalizing start with
  | nil =>
    rw [Nat.ofDigitChars_nil, List.length_nil, pow_zero, Nat.mul_one]
    exact Nat.lt_succ_self start
  | cons c digits ih =>
    obtain ⟨-, hhigh⟩ := Char.isDigit_iff_toNat.mp (h c List.mem_cons_self)
    have hzero : '0'.toNat = 48 := rfl
    have hnine : '9'.toNat = 57 := rfl
    have hstep : 10 * start + (c.toNat - '0'.toNat) + 1 ≤ (start + 1) * 10 := by omega
    rw [Nat.ofDigitChars_cons, List.length_cons, pow_succ', ← Nat.mul_assoc]
    exact (ih (fun c hc ↦ h c (List.mem_cons_of_mem _ hc)) _).trans_le (Nat.mul_le_mul_right _ hstep)

theorem digitsValue_lt {digits : Text} (h : ∀ c ∈ digits, c.isDigit = true) :
    digitsValue digits < 10 ^ (digits.dropWhile (· = '0')).length := by
  have hzeros : digits.takeWhile (· = '0') =
      List.replicate (digits.takeWhile (· = '0')).length '0' :=
    List.eq_replicate_of_mem fun c hc ↦ by simpa using List.mem_takeWhile_imp hc
  have hdigits : ∀ c ∈ digits.dropWhile (· = '0'), c.isDigit = true := fun c hc ↦
    h c ((List.dropWhile_sublist _).subset hc)
  have hrest := ofDigitChars_lt hdigits 0
  calc digitsValue digits =
        digitsValue (digits.takeWhile (· = '0') ++ digits.dropWhile (· = '0')) := by
        rw [List.takeWhile_append_dropWhile]
    _ = digitsValue (digits.dropWhile (· = '0')) := by
        rw [digitsValue, Nat.ofDigitChars_append, hzeros, Nat.ofDigitChars_replicate_zero,
          Nat.mul_zero, digitsValue]
    _ < 10 ^ (digits.dropWhile (· = '0')).length := by rwa [Nat.zero_add, Nat.one_mul] at hrest

theorem decide_ne_point {c : Char} (hc : c.isDigit = true) : decide (c ≠ '.') = true :=
  decide_eq_true fun heq ↦ absurd (heq ▸ hc) (by decide)

theorem decimalPlaces_whole {digits : Text} (h : ∀ c ∈ digits, c.isDigit = true) :
    decimalPlaces digits = 0 := by
  rw [decimalPlaces, List.dropWhile_eq_nil_iff.mpr fun c hc ↦ decide_ne_point (h c hc)]
  rfl

theorem decimalPlaces_pointed {digits : Text} (h : ∀ c ∈ digits, c.isDigit = true)
    (fraction : Text) : decimalPlaces (digits ++ '.' :: fraction) = fraction.length := by
  rw [decimalPlaces, List.dropWhile_append_of_pos fun c hc ↦ decide_ne_point (h c hc)]
  rfl

/-- What a text in positional notation is read as has the exponent and the size that its digits
show. -/
theorem IsPositional.readDecimal?_eq {text : Text} (h : IsPositional text) :
    ∃ coefficient, readDecimal? text = some ⟨coefficient, -decimalPlaces text⟩ ∧
      coefficient < 10 ^ significantDigits text := by
  cases h with
  | whole hne hdigits =>
    refine ⟨digitsValue text, ?_, ?_⟩
    · rw [readDecimal?_whole hne hdigits, decimalPlaces_whole hdigits]
      rfl
    · rw [significantDigits, List.filter_eq_self.mpr hdigits]
      exact digitsValue_lt hdigits
  | @pointed digits fraction hne hdigits hfraction =>
    refine ⟨digitsValue (digits ++ fraction), ?_, ?_⟩
    · rw [readDecimal?_pointed hne hdigits hfraction, decimalPlaces_pointed hdigits]
    · rw [significantDigits, List.filter_append, List.filter_cons_of_neg (by decide),
        List.filter_eq_self.mpr hdigits, List.filter_eq_self.mpr hfraction]
      exact digitsValue_lt (List.forall_mem_append.mpr ⟨hdigits, hfraction⟩)

/-! ## Values of literals -/

theorem Decimal.round_places_eq (coefficient places : ℕ) (negative : Bool) :
    Decimal.round negative ⟨coefficient, -places⟩ =
      .round negative (⟨coefficient, -places⟩ : Decimal).toRat := by
  refine Decimal.round_eq ?_ negative
  change (-places : ℤ) ≤ 400
  omega

/-- The number of a decimal with up to twelve places is the nearest to a whole number of units. -/
theorem Decimal.exists_nearestValue_eq {coefficient places : ℕ} (hplaces : places ≤ 12)
    {negative : Bool} (hfinite : (Decimal.round negative ⟨coefficient, -places⟩).isFinite = true) :
    ∃ n : ℤ, nearestValue (n / 10 ^ 12) = (Decimal.round negative ⟨coefficient, -places⟩).toRat := by
  obtain ⟨missing, hmissing⟩ := Nat.exists_eq_add_of_le hplaces
  have hvalue : (⟨coefficient, -places⟩ : Decimal).toRat =
      (coefficient * 10 ^ missing : ℕ) / 10 ^ 12 := by
    rw [Decimal.toRat_eq, zpow_neg, zpow_natCast, hmissing, pow_add]
    push_cast
    field_simp
  have hpos : (0 : ℚ) ≤ (coefficient * 10 ^ missing : ℕ) / 10 ^ 12 := by positivity
  rw [Decimal.round_places_eq, hvalue] at hfinite ⊢
  generalize coefficient * 10 ^ missing = n at hfinite hpos
  cases negative with
  | false =>
    refine ⟨n, (Binary64.toRat_round_sign ?_ ?_ hfinite).symm⟩
    · rw [Int.cast_natCast, abs_of_nonneg hpos]
    · simpa using hpos
  | true =>
    refine ⟨-n, (Binary64.toRat_round_sign ?_ ?_ hfinite).symm⟩
    · rw [Int.cast_neg, Int.cast_natCast, neg_div, abs_neg, abs_of_nonneg hpos]
    · simpa [neg_div] using hpos

theorem Decimal.isFinite_round_of_lt {coefficient : ℕ} (h : coefficient < 10 ^ 15) (places : ℕ)
    (negative : Bool) : (Decimal.round negative ⟨coefficient, -places⟩).isFinite = true := by
  have hvalue : (⟨coefficient, -places⟩ : Decimal).toRat ≤ 2 ^ 1000 := by
    rw [Decimal.toRat_eq, zpow_neg, zpow_natCast]
    calc (coefficient : ℚ) * (10 ^ places)⁻¹ ≤ coefficient * 1 :=
          mul_le_mul_of_nonneg_left (inv_le_one_of_one_le₀ (one_le_pow₀ (by norm_num)))
            (Nat.cast_nonneg _)
      _ = coefficient := mul_one _
      _ ≤ 10 ^ 15 := by exact_mod_cast h.le
      _ ≤ 2 ^ 50 := by norm_num
      _ ≤ 2 ^ 1000 := pow_le_pow_right₀ one_le_two (by norm_num)
  rw [Decimal.round_places_eq, Binary64.isFinite_round]
  exact Binary64.nearestCode_lt_of_le_two_pow (Decimal.toRat_nonneg _) hvalue

theorem isFinite_scaled_iff_of_le {x : Binary64} (hx : x.isFinite = true)
    (hlarge : 4096 ≤ |x.toRat|) :
    ((x + epsilon) * placesFactor 12).isFinite = true ↔
      (Binary64.ofRat (x.toRat * 10 ^ 12)).isFinite = true := by
  obtain ⟨hfactor, hfactor'⟩ := toRat_placesFactor (show 12 ≤ 22 by norm_num)
  rw [isFinite_scaled_iff hx hfactor, hfactor',
    nearestValue_add_epsilon (Binary64.representable_toRat x) (by linarith)]

/-- **Rounding what has twelve places**, where scaling may overflow, too. -/
theorem roundToPlaces_eq_clearZeroSign_iff {x : Binary64} (hx : x.isFinite = true) {n : ℤ}
    (hvalue : nearestValue (n / 10 ^ 12) = x.toRat) :
    x.roundToPlaces 12 = x.clearZeroSign ↔ ¬ Drifts x.toRat ∧ ¬ Strays x.toRat := by
  obtain ⟨hclear, hclear'⟩ := toRat_clearZeroSign x
  by_cases hscaled : ((x + epsilon) * placesFactor 12).isFinite = true
  · have heq : x.roundToPlaces 12 = x.clearZeroSign ↔
        roundedQuotient (10 ^ 12) x.toRat = x.toRat := by
      rw [← toRat_roundToPlaces hx (by norm_num) hscaled, ← hclear']
      exact ⟨congrArg Binary64.toRat, Binary64.eq_of_toRat_eq (isFinite_roundToPlaces hx 12)
        (hclear.trans hx) (roundToPlaces_ne_negative_zero (by norm_num))
        (Binary64.clearZeroSign_ne_negative_zero x)⟩
    rw [heq, roundedQuotient_nearestValue_eq_iff hvalue]
    exact fun hlarge ↦ (isFinite_scaled_iff_of_le hx hlarge).mp hscaled
  · -- a number so large is no zero, and it is left as it is
    have hlarge : 2 ^ 52 < |x.toRat| := by
      by_contra hsmall
      exact hscaled (isFinite_scaled hx (by norm_num) (not_lt.mp hsmall))
    have hnonzero : x ≠ .zero true := by
      rintro rfl
      rw [Binary64.toRat_zero, abs_zero] at hlarge
      norm_num at hlarge
    refine iff_of_true ?_ ⟨fun hdrifts ↦ by linarith [hdrifts.2.1], fun hstrays ↦ ?_⟩
    · rw [Binary64.roundToPlaces_of_overflow (Bool.not_eq_true _ ▸ hscaled),
        clearZeroSign_eq hnonzero]
    · exact hscaled ((isFinite_scaled_iff_of_le hx (by linarith)).mpr hstrays.2.1)

/-! ## Results of literals -/

theorem IsPositional.result_iff {text : Text} (h : IsPositional text)
    (hplaces : decimalPlaces text ≤ 12) {coefficient : ℕ}
    (hdecimal : readDecimal? text = some ⟨coefficient, -decimalPlaces text⟩)
    (hcoefficient : coefficient < 10 ^ 15) (negative : Bool) :
    ∃ x, x = Decimal.round negative ⟨coefficient, -decimalPlaces text⟩ ∧
      readNumber? (signText negative ++ text) = some x ∧ x.isFinite = true ∧
      (roundedValue? ({} : Options).places (signText negative ++ text) = some x.clearZeroSign ↔
        ¬ Drifts x.toRat ∧ ¬ Strays x.toRat) := by
  have hread : readNumber? (signText negative ++ text) =
      some (Decimal.round negative ⟨coefficient, -decimalPlaces text⟩) := by
    rw [h.readNumber?_eq, hdecimal, Option.map_some]
  have hvalue : tokensValue (scan (signText negative ++ text)) =
      Decimal.round negative ⟨coefficient, -decimalPlaces text⟩ := by
    rw [h.scan_eq]
    change numberValue (signText negative ++ text) = _
    rw [numberValue, hread, Option.getD_some]
  have hfinite := Decimal.isFinite_round_of_lt hcoefficient (decimalPlaces text) negative
  obtain ⟨n, hnearest⟩ := Decimal.exists_nearestValue_eq hplaces hfinite
  refine ⟨_, rfl, hread, hfinite, ?_⟩
  change roundedValue? 12 _ = _ ↔ _
  rw [roundedValue?_eq_some_iff, hvalue, and_iff_right hfinite]
  exact roundToPlaces_eq_clearZeroSign_iff hfinite hnearest

/-- **Literals.** A literal with at most twelve digits after the point and fifteen significant
digits is read as a finite number, and this is its result exactly if the value neither drifts nor
strays. -/
theorem roundedValue?_literal_eq_iff {text : Text} (h : IsPositional text)
    (hplaces : decimalPlaces text ≤ 12) (hdigits : significantDigits text ≤ 15) (negative : Bool) :
    ∃ x, readNumber? (signText negative ++ text) = some x ∧ x.isFinite = true ∧
      (roundedValue? ({} : Options).places (signText negative ++ text) = some x.clearZeroSign ↔
        ¬ Drifts x.toRat ∧ ¬ Strays x.toRat) := by
  obtain ⟨coefficient, hdecimal, hlt⟩ := h.readDecimal?_eq
  have hcoefficient := hlt.trans_le (Nat.pow_le_pow_right (by norm_num) hdigits)
  obtain ⟨x, -, hx⟩ := h.result_iff hplaces hdecimal hcoefficient negative
  exact ⟨x, hx⟩

/-- The result of `-6000.5` is the number it is read as. -/
theorem roundedValue?_negative_six_thousand_and_a_half :
    ∃ x, readNumber? ['-', '6', '0', '0', '0', '.', '5'] = some x ∧ x.toRat = -12001 / 2 ∧
      roundedValue? ({} : Options).places ['-', '6', '0', '0', '0', '.', '5'] =
        some x.clearZeroSign := by
  have hpositional : IsPositional (['6', '0', '0', '0'] ++ '.' :: ['5']) :=
    .pointed (List.cons_ne_nil _ _) (List.all_eq_true.mp rfl) (List.all_eq_true.mp rfl)
  obtain ⟨x, hread, -, hresult⟩ :=
    roundedValue?_literal_eq_iff hpositional (by decide) (by decide) true
  have hx : readNumber? ['-', '6', '0', '0', '0', '.', '5'] = some (.ofRat (-12001 / 2)) := by
    decide +kernel
  obtain rfl := Option.some_inj.mp (hread.symm.trans hx)
  exact ⟨_, hread, by decide +kernel, hresult.mpr (by decide +kernel)⟩

/-- The number that `36893489` is read as strays, and its result is `36893488.99999999`. -/
theorem exists_literal_that_strays :
    ∃ text x y, IsPositional text ∧ decimalPlaces text ≤ 12 ∧ significantDigits text ≤ 15 ∧
      readNumber? text = some x ∧ x.toRat = 36893489 ∧
      roundedValue? ({} : Options).places text = some y ∧ y ≠ x.clearZeroSign := by
  refine ⟨['3', '6', '8', '9', '3', '4', '8', '9'], .ofRat 36893489, .ofBits 0x4181979987ffffff,
    .whole (List.cons_ne_nil _ _) (List.all_eq_true.mp rfl), by decide, by decide, ?_⟩
  decide +kernel

/-! ## Literals that are their own results -/

/-- Below 4096 every literal with at most twelve places and fifteen significant digits is its own
result. -/
theorem roundedValue?_literal_of_abs_lt {text : Text} (h : IsPositional text)
    (hplaces : decimalPlaces text ≤ 12) (hdigits : significantDigits text ≤ 15) {negative : Bool}
    {x : Binary64} (hread : readNumber? (signText negative ++ text) = some x)
    (hsmall : |x.toRat| < 4096) :
    roundedValue? ({} : Options).places (signText negative ++ text) = some x.clearZeroSign := by
  obtain ⟨coefficient, hdecimal, hlt⟩ := h.readDecimal?_eq
  have hcoefficient := hlt.trans_le (Nat.pow_le_pow_right (by norm_num) hdigits)
  obtain ⟨y, -, hy, -, hresult⟩ := h.result_iff hplaces hdecimal hcoefficient negative
  obtain rfl := Option.some_inj.mp (hread.symm.trans hy)
  exact hresult.mpr (not_drifts_and_not_strays_of_lt hsmall)

/-- Every whole number below `2 ^ 25` is its own result. -/
theorem roundedValue?_whole_of_lt {digits : Text} (hne : digits ≠ [])
    (hdigits : ∀ c ∈ digits, c.isDigit = true) (hlt : digitsValue digits < 2 ^ 25)
    (negative : Bool) :
    ∃ x, readNumber? (signText negative ++ digits) = some x ∧ |x.toRat| = digitsValue digits ∧
      roundedValue? ({} : Options).places (signText negative ++ digits) =
        some x.clearZeroSign := by
  have hplaces := decimalPlaces_whole hdigits
  have hdecimal : readDecimal? digits = some ⟨digitsValue digits, -decimalPlaces digits⟩ := by
    rw [readDecimal?_whole hne hdigits, hplaces]
    rfl
  obtain ⟨x, hx, hread, hfinite, hresult⟩ := (IsPositional.whole hne hdigits).result_iff
    (hplaces.trans_le (Nat.zero_le _)) hdecimal (hlt.trans (by norm_num)) negative
  have hvalue : |x.toRat| = digitsValue digits := by
    have hexact : (⟨digitsValue digits, -decimalPlaces digits⟩ : Decimal).toRat =
        digitsValue digits := by
      rw [hplaces, Decimal.toRat_eq, Nat.cast_zero, neg_zero, zpow_zero, mul_one]
    have hrep : Representable (digitsValue digits) :=
      (Binary64.toRat_ofNat (hlt.le.trans (by norm_num))).2 ▸ Binary64.representable_toRat _
    rw [hx, Decimal.round_places_eq, hexact] at hfinite ⊢
    rw [Binary64.abs_toRat_round (Nat.cast_nonneg _) hfinite, hrep.nearestValue_eq]
  exact ⟨x, hread, hvalue,
    hresult.mpr ⟨not_drifts_of_abs_eq_natCast hvalue, not_strays_of_abs_eq_natCast hvalue hlt⟩⟩

end PocketCalculator
