import PocketCalculator.Calculation.Places
import PocketCalculator.Proofs.Binary64.Operations
import PocketCalculator.Proofs.Decimal.Positional
import PocketCalculator.Proofs.Expression.Grammar

/-!
# Reading back

The text of a finite number is a numeral of it. A magnitude is written as a decimal that is rounded
to the magnitude again: it is found by trying just that, and if nothing is found, the magnitude
itself is a decimal (`Magnitude.isReadFrom_shortest`). The text of the decimal is read as a decimal
of the same value, and the value alone decides what the decimal is rounded to (`Decimal.round_eq`).
So the number comes back, up to the sign of a zero, which is not written (`numberValue_toText`).
-/

namespace PocketCalculator

/-! ## Rounding a decimal -/

theorem nearestCode_of_lt {q : ℚ} (hq : 0 ≤ q) (h : q < 1 / 2 ^ (leastExponent + 1)) :
    nearestCode q = 0 := by
  refine (nearestCode_eq_iff hq).mpr ⟨.inl ?_, fun before hsucc ↦ ?_⟩
  swap
  · exact absurd hsucc.symm (Nat.succ_ne_zero before)
  have hnext : codeValue (0 + 1) = 1 / 2 ^ leastExponent := by
    have hdoublings : codeDoublings 0 = 0 := rfl
    rw [codeValue_succ, codeValue_zero, hdoublings, pow_zero, zero_add]
  rw [pow_succ, lt_div_iff₀ (by positivity)] at h
  rw [hnext, codeValue_zero, zero_add, lt_div_iff₀ unit_pos]
  linarith

theorem Decimal.toRat_lt (d : Decimal) :
    d.toRat < (10 : ℚ) ^ (d.exponent + d.coefficient.log2 + 1) := by
  have hcoefficient : (d.coefficient : ℚ) < 10 ^ (d.coefficient.log2 + 1) := by
    have hlog : d.coefficient < 10 ^ (d.coefficient.log2 + 1) :=
      Nat.lt_log2_self.trans_le (Nat.pow_le_pow_left (by decide) _)
    exact_mod_cast hlog
  have hpos : (0 : ℚ) < 10 ^ d.exponent := zpow_pos (by norm_num) _
  have hexponent : d.exponent + d.coefficient.log2 + 1 =
      ((d.coefficient.log2 + 1 : ℕ) : ℤ) + d.exponent := by
    push_cast
    ring
  rw [d.toRat_eq, hexponent, zpow_add₀ (by norm_num), zpow_natCast]
  exact mul_lt_mul_of_pos_right hcoefficient hpos

theorem ten_zpow_le {n : ℤ} (h : n < -400) : (10 : ℚ) ^ n ≤ 1 / 2 ^ (leastExponent + 1) := by
  have hnat : (2 : ℚ) ^ (leastExponent + 1) ≤ 10 ^ 400 := by
    calc (2 : ℚ) ^ (leastExponent + 1) ≤ 2 ^ (3 * 400) := pow_le_pow_right₀ one_le_two (by decide)
      _ = (2 ^ 3) ^ 400 := pow_mul 2 3 400
      _ ≤ 10 ^ 400 := pow_le_pow_left₀ (by norm_num) (by norm_num) 400
  calc (10 : ℚ) ^ n ≤ 10 ^ (-(400 : ℕ) : ℤ) :=
        zpow_le_zpow_right₀ (by norm_num) (by push_cast; omega)
    _ = 1 / 10 ^ 400 := by rw [zpow_neg, zpow_natCast, one_div]
    _ ≤ 1 / 2 ^ (leastExponent + 1) := one_div_le_one_div_of_le (by positivity) hnat

theorem round_eq_zero {q : ℚ} (h : nearestCode q = 0) (negative : Bool) :
    Binary64.round negative q = .zero negative := by
  have hcode : (0 : ℕ) < infinityCode := by decide
  rw [Binary64.round_of_lt (h ▸ hcode), Binary64.zero, Magnitude.zero]
  simp only [h]

/-- The cases in which a decimal is not multiplied out change nothing. -/
theorem Decimal.round_eq {d : Decimal} (h : d.exponent ≤ placeLimit) (negative : Bool) :
    d.round negative = .round negative d.toRat := by
  rw [round]
  split_ifs with hcoefficient hlarge hsmall
  · have hvalue : d.toRat = codeValue 0 := by
      rw [d.toRat_eq, hcoefficient, Nat.cast_zero, zero_mul, codeValue_zero]
    rw [round_eq_zero (hvalue ▸ nearestCode_codeValue 0)]
  · exact absurd h (not_le.mpr hlarge)
  · have hlt := d.toRat_lt.trans_le (ten_zpow_le (n := d.exponent + d.coefficient.log2 + 1) hsmall)
    rw [round_eq_zero (nearestCode_of_lt d.toRat_nonneg hlt)]
  · rfl

/-! ## The shortest decimal -/

theorem Magnitude.isReadFrom_exactDecimal (m : Magnitude) : m.isReadFrom m.exactDecimal = true := by
  have hquotient : m.toRat / tenToThe finestGrid = (m.units * 5 ^ leastExponent : ℕ) := by
    rw [tenToThe_eq, finestGrid, zpow_neg, zpow_natCast, div_inv_eq_mul, toRat, twoPow_eq,
      show (10 : ℚ) = 2 * 5 by norm_num, mul_pow]
    push_cast
    field_simp
  have hvalue : m.exactDecimal.toRat = codeValue m.code := by
    rw [← m.toRat_eq, exactDecimal, hquotient, floor_eq, Int.floor_natCast, Int.toNat_natCast,
      Decimal.toRat, ← hquotient]
    exact div_mul_cancel₀ _ (tenToThe_eq _ ▸ zpow_ne_zero _ (by norm_num))
  rw [isReadFrom, decide_eq_true_iff, hvalue, nearestCode_codeValue]

theorem Magnitude.isReadFrom_shortestFrom (m : Magnitude) (j : ℤ) (grids : ℕ) :
    m.isReadFrom (m.shortestFrom j grids) = true := by
  induction grids generalizing j with
  | zero => exact m.isReadFrom_exactDecimal
  | succ grids ih =>
    rw [shortestFrom]
    rcases hpoint : m.gridPoint? j with _ | d
    · exact ih (j - 1)
    · exact isReadFrom_of_gridPoint? hpoint

theorem Magnitude.isReadFrom_shortest (m : Magnitude) : m.isReadFrom m.shortest = true := by
  rw [shortest]
  exact m.isReadFrom_shortestFrom _ _

/-! ## The text of a number -/

theorem IsPositional.isNumeralChar_of_mem {text : Text} (h : IsPositional text) :
    ∀ c ∈ text, isNumeralChar c = true := by
  intro c hc
  cases h with
  | whole _ hdigits => exact isNumeralChar_of_isDigit (hdigits c hc)
  | pointed _ hdigits hfraction =>
    rcases List.mem_append.mp hc with hc | hc
    · exact isNumeralChar_of_isDigit (hdigits c hc)
    · rcases List.mem_cons.mp hc with rfl | hc
      · rfl
      · exact isNumeralChar_of_isDigit (hfraction c hc)

/-- A text in positional notation is a numeral of some value, and a minus in front of it is the sign
of what the value is rounded to. -/
theorem IsPositional.exists_readNumber? {text : Text} (h : IsPositional text) :
    ∃ q : ℚ, ∀ negative,
      readNumber? (Binary64.signText negative ++ text) = some (.round negative q) := by
  obtain ⟨d, hd, hexponent⟩ := h.exists_readDecimal?
  refine ⟨d.toRat, fun negative ↦ ?_⟩
  rw [h.readNumber?_eq, hd, Option.map_some, Decimal.round_eq (hexponent.trans (by decide))]

theorem WithBlanks.refl (text : Text) : WithBlanks text text := by
  induction text with
  | nil => exact .nil
  | cons c text ih => exact .keep c ih

theorem IsPositional.scan_eq {text : Text} (h : IsPositional text) (negative : Bool) :
    scan (Binary64.signText negative ++ text) = [.number (Binary64.signText negative ++ text)] :=
  (Phrase.literal ⟨negative, text, h.ne_nil, h.isNumeralChar_of_mem⟩).scan_eq (.refl _)

namespace Binary64

theorem exists_isPositional_toText {x : Binary64} (hx : x.isFinite = true) :
    ∃ negative text, IsPositional text ∧ x.toText = signText negative ++ text := by
  obtain ⟨s, m, rfl⟩ := isFinite_iff.mp hx
  by_cases hm : m = .zero
  · subst hm
    have hdigits : ∀ c ∈ ['0'], c.isDigit = true := fun c hc ↦ List.mem_singleton.mp hc ▸ rfl
    exact ⟨false, ['0'], .whole (List.cons_ne_nil _ _) hdigits, toText_zero s⟩
  · exact ⟨s, m.shortest.toText, m.shortest.isPositional_toText, toText_finite hm s⟩

/-- **Reading back.** The text of a finite number is a numeral of it, or of the positive zero if it
is a zero. -/
theorem readNumber?_toText {x : Binary64} (hx : x.isFinite = true) :
    readNumber? x.toText = some x.clearZeroSign := by
  obtain ⟨s, m, rfl⟩ := isFinite_iff.mp hx
  by_cases hm : m = .zero
  · subst hm
    rw [show finite s .zero = zero s from rfl, toText_zero, clearZeroSign,
      if_pos (isZero_iff.mpr ⟨s, rfl⟩)]
    rfl
  · have hzero : ¬ (finite s m).isZero = true := by
      rw [isZero, decide_eq_true_iff]
      exact hm
    obtain ⟨d, hread, hexponent, hvalue⟩ := m.shortest.exists_readDecimal?_toText
    have hcode : nearestCode d.toRat = m.code := by
      rw [hvalue]
      exact of_decide_eq_true m.isReadFrom_shortest
    rw [toText_finite hm, m.shortest.isPositional_toText.readNumber?_eq, hread, Option.map_some,
      Decimal.round_eq (hexponent.trans (by decide)), clearZeroSign, if_neg hzero,
      round_of_lt (hcode ▸ m.code_lt)]
    simp only [hcode]

theorem scan_toText {x : Binary64} (hx : x.isFinite = true) :
    scan x.toText = [.number x.toText] := by
  obtain ⟨negative, text, hpositional, htext⟩ := exists_isPositional_toText hx
  rw [htext, hpositional.scan_eq]

/-- Calculating with the text of a finite number begins with the number, or with the positive
zero. -/
theorem tokensValue_scan_toText {x : Binary64} (hx : x.isFinite = true) :
    tokensValue (scan x.toText) = x.clearZeroSign := by
  rw [scan_toText hx]
  change numberValue x.toText = _
  rw [numberValue, readNumber?_toText hx, Option.getD_some]

end Binary64

end PocketCalculator
