import Mathlib.Algebra.Order.Field.Basic
import Mathlib.Data.Rat.Floor
import Mathlib.Order.Monotone.Basic
import Mathlib.Tactic.FieldSimp
import Mathlib.Tactic.Linarith
import Mathlib.Tactic.NormNum
import Mathlib.Tactic.Positivity
import Mathlib.Tactic.Ring
import PocketCalculator.Binary64.Rounding

/-!
# The spacing of magnitudes

Codes number the magnitudes, and go on past the largest one as if there were no end. This file says
which values the codes stand for: how far the next value is away (`codeValue_succ`), which rationals
are values at all (`Representable`), and that values far from zero are multiples of a power of two
(`exists_int_of_representable`).

The value of a code is kept in two forms. `unitsOfCode` is the number of units of the least
magnitude, which is what the definition computes; `codeValue` is the rational, in which all that
follows is stated.
-/

namespace PocketCalculator

theorem twoPow_eq (n : ℕ) : twoPow n = 2 ^ n := rfl

theorem twoPow_fractionBits : twoPow fractionBits = 4503599627370496 := rfl

/-! ## Units -/

/-- How often the spacing has doubled below a code. -/
def codeDoublings (code : ℕ) : ℕ :=
  code / 4503599627370496 - 1

/-- The value of a code in units of the least magnitude. -/
def unitsOfCode (code : ℕ) : ℕ :=
  (code - codeDoublings code * 4503599627370496) * 2 ^ codeDoublings code

theorem Magnitude.units_eq (m : Magnitude) : m.units = unitsOfCode m.code := rfl

/-- After `k` doublings the values are the multiples of `2 ^ k` of 53 bits, and the first one of the
next doubling. Before any doubling they are all numbers up to there. -/
theorem unitsOfCode_add {k n : ℕ} (hlow : k = 0 ∨ 4503599627370496 ≤ n)
    (hhigh : n ≤ 2 * 4503599627370496) :
    unitsOfCode (k * 4503599627370496 + n) = n * 2 ^ k := by
  rcases Nat.lt_or_eq_of_le hhigh with hlt | rfl
  · have hd : codeDoublings (k * 4503599627370496 + n) = k := by unfold codeDoublings; omega
    rw [unitsOfCode, hd, Nat.add_sub_cancel_left]
  · have hd : codeDoublings (k * 4503599627370496 + 2 * 4503599627370496) = k + 1 := by
      unfold codeDoublings; omega
    rw [unitsOfCode, hd, pow_succ,
      show k * 4503599627370496 + 2 * 4503599627370496 - (k + 1) * 4503599627370496
        = 4503599627370496 from by omega]
    ring

theorem unitsOfCode_of_le {code : ℕ} (h : code ≤ 2 * 4503599627370496) :
    unitsOfCode code = code := by
  simpa using unitsOfCode_add (k := 0) (.inl rfl) h

/-- Every code is a code of the first spacing or has a form to which the last lemma applies. -/
theorem exists_eq_add_of_le {code : ℕ} (h : 4503599627370496 ≤ code) :
    ∃ n, 4503599627370496 ≤ n ∧ n < 2 * 4503599627370496 ∧
      code = codeDoublings code * 4503599627370496 + n :=
  ⟨code - codeDoublings code * 4503599627370496, by unfold codeDoublings; omega,
    by unfold codeDoublings; omega, by unfold codeDoublings; omega⟩

theorem unitsOfCode_succ (code : ℕ) :
    unitsOfCode (code + 1) = unitsOfCode code + 2 ^ codeDoublings code := by
  by_cases h : 4503599627370496 ≤ code
  · obtain ⟨n, hlow, hhigh, hcode⟩ := exists_eq_add_of_le h
    generalize codeDoublings code = k at hcode
    subst hcode
    rw [Nat.add_assoc, unitsOfCode_add (by omega) (by omega), unitsOfCode_add (by omega) hhigh.le]
    ring
  · have hd : codeDoublings code = 0 := by unfold codeDoublings; omega
    rw [unitsOfCode_of_le (by omega), unitsOfCode_of_le (by omega), hd, pow_zero]

theorem unitsOfCode_strictMono : StrictMono unitsOfCode :=
  strictMono_nat_of_lt_succ fun code ↦ by
    rw [unitsOfCode_succ]
    exact Nat.lt_add_of_pos_right (Nat.two_pow_pos _)

/-- A multiple of a power of two is a value if it has at most 53 bits, or is the first of more. -/
theorem exists_unitsOfCode {n : ℕ} (hn : n ≤ 2 * 4503599627370496) (k : ℕ) :
    ∃ code, unitsOfCode code = n * 2 ^ k := by
  induction k generalizing n with
  | zero => exact ⟨n, by rw [unitsOfCode_of_le hn, pow_zero, Nat.mul_one]⟩
  | succ k ih =>
    by_cases h : 4503599627370496 ≤ n
    · exact ⟨(k + 1) * 4503599627370496 + n, unitsOfCode_add (.inr h) hn⟩
    · -- a number with fewer bits is a multiple of the spacing before, too
      obtain ⟨code, hcode⟩ := ih (n := 2 * n) (by omega)
      exact ⟨code, by rw [hcode, pow_succ]; ring⟩

theorem two_pow_dvd_unitsOfCode {code k : ℕ} (h : 4503599627370496 * 2 ^ k ≤ unitsOfCode code) :
    2 ^ k ∣ unitsOfCode code := by
  have hk : k ≤ codeDoublings code := by
    by_contra hlt
    have hcode : code < 4503599627370496 + k * 4503599627370496 := by
      unfold codeDoublings at hlt
      omega
    have hvalue := unitsOfCode_strictMono hcode
    rw [Nat.add_comm, unitsOfCode_add (.inr le_rfl) (by omega)] at hvalue
    exact absurd h (Nat.not_le_of_lt hvalue)
  rw [unitsOfCode]
  exact Dvd.dvd.mul_left (pow_dvd_pow 2 hk) _

/-! ## Values -/

def codeValue (code : ℕ) : ℚ :=
  unitsOfCode code / 2 ^ leastExponent

theorem unit_pos : (0 : ℚ) < 2 ^ leastExponent := by positivity

theorem Magnitude.toRat_eq (m : Magnitude) : m.toRat = codeValue m.code := by
  rw [Magnitude.toRat, codeValue, m.units_eq, twoPow_eq, Nat.cast_pow, Nat.cast_ofNat]

@[simp] theorem codeValue_zero : codeValue 0 = 0 := by
  simp [codeValue, unitsOfCode]

theorem codeValue_strictMono : StrictMono codeValue := fun _ _ h ↦
  div_lt_div_of_pos_right (by exact_mod_cast unitsOfCode_strictMono h) unit_pos

theorem codeValue_nonneg (code : ℕ) : 0 ≤ codeValue code := by
  unfold codeValue
  positivity

theorem codeValue_succ (code : ℕ) :
    codeValue (code + 1) = codeValue code + 2 ^ codeDoublings code / 2 ^ leastExponent := by
  rw [codeValue, unitsOfCode_succ, codeValue]
  push_cast
  ring

theorem two_pow_sub_div {t : ℕ} (ht : t ≤ leastExponent) :
    (2 : ℚ) ^ (leastExponent - t) / 2 ^ leastExponent = 1 / 2 ^ t := by
  rw [div_eq_div_iff (by positivity) (by positivity), ← pow_add, Nat.sub_add_cancel ht, one_mul]

/-- Whether a rational is, apart from its sign, the value of a code. -/
def Representable (q : ℚ) : Prop :=
  ∃ code, |q| = codeValue code

theorem representable_codeValue (code : ℕ) : Representable (codeValue code) :=
  ⟨code, abs_of_nonneg (codeValue_nonneg code)⟩

theorem Representable.neg {q : ℚ} (h : Representable q) : Representable (-q) := by
  obtain ⟨code, hcode⟩ := h
  exact ⟨code, by rw [abs_neg, hcode]⟩

theorem Representable.abs {q : ℚ} (h : Representable q) : Representable |q| := by
  obtain ⟨code, hcode⟩ := h
  exact ⟨code, (abs_abs q).trans hcode⟩

theorem representable_zero : Representable 0 :=
  ⟨0, by rw [abs_zero, codeValue_zero]⟩

theorem representable_mul_two_pow {n : ℤ} (hn : |n| ≤ 2 ^ 53) (k : ℕ) :
    Representable (n * 2 ^ k / 2 ^ leastExponent) := by
  rw [Int.abs_eq_natAbs] at hn
  obtain ⟨code, hcode⟩ := exists_unitsOfCode (n := n.natAbs) (by omega) k
  refine ⟨code, ?_⟩
  have hpow : (0 : ℚ) < 2 ^ k := by positivity
  rw [codeValue, hcode, abs_div, abs_mul, abs_of_pos unit_pos, abs_of_pos hpow, Nat.cast_mul,
    Nat.cast_pow, Nat.cast_ofNat, Nat.cast_natAbs, Int.cast_abs]

theorem representable_div_two_pow {n : ℤ} (hn : |n| ≤ 2 ^ 53) {t : ℕ} (ht : t ≤ leastExponent) :
    Representable (n / 2 ^ t) := by
  have h := representable_mul_two_pow hn (leastExponent - t)
  rwa [mul_div_assoc, two_pow_sub_div ht, mul_one_div] at h

theorem representable_intCast {n : ℤ} (hn : |n| ≤ 2 ^ 53) : Representable n := by
  simpa using representable_div_two_pow hn (Nat.zero_le _)

theorem representable_one_div_two_pow {t : ℕ} (ht : t ≤ leastExponent) :
    Representable (1 / 2 ^ t) := by
  simpa using representable_div_two_pow (n := 1) (by norm_num) ht

theorem representable_intCast_mul_two_pow {n : ℤ} (hn : |n| ≤ 2 ^ 53) (k : ℕ) :
    Representable (n * 2 ^ k) := by
  have h := representable_mul_two_pow hn (k + leastExponent)
  rwa [pow_add, ← mul_assoc, mul_div_cancel_right₀ _ unit_pos.ne'] at h

theorem representable_two_pow (k : ℕ) : Representable (2 ^ k) := by
  simpa using representable_intCast_mul_two_pow (n := 1) (by norm_num) k

theorem representable_one : Representable 1 := by
  simpa using representable_two_pow 0

/-- From `2 ^ 52` units of a power of two on, a value is a whole number of these units. -/
theorem exists_int_of_representable {q : ℚ} (hq : Representable q) {t : ℕ}
    (ht : t ≤ leastExponent) (h : 2 ^ 52 / 2 ^ t ≤ |q|) : ∃ n : ℤ, q = n / 2 ^ t := by
  obtain ⟨code, hcode⟩ := hq
  have hlow : 4503599627370496 * 2 ^ (leastExponent - t) ≤ unitsOfCode code := by
    rw [hcode, codeValue, ← mul_one_div, ← two_pow_sub_div ht, ← mul_div_assoc,
      div_le_div_iff_of_pos_right unit_pos] at h
    exact_mod_cast h
  obtain ⟨n, hn⟩ := two_pow_dvd_unitsOfCode hlow
  have habs : |q| = n / 2 ^ t := by
    rw [hcode, codeValue, hn, Nat.cast_mul, Nat.cast_pow, Nat.cast_ofNat, mul_comm,
      mul_div_assoc, two_pow_sub_div ht, mul_one_div]
  rcases abs_choice q with hpos | hneg
  · exact ⟨n, by rw [← hpos, habs, Int.cast_natCast]⟩
  · refine ⟨-n, ?_⟩
    rw [hneg] at habs
    rw [Int.cast_neg, Int.cast_natCast, neg_div, ← habs, neg_neg]

end PocketCalculator
