import PocketCalculator.Binary64.Arithmetic
import PocketCalculator.Proofs.Binary64.NearestValue

/-!
# Operations and their values

Every operation with a finite result has the nearest value to the exact result of the operation on
the values of its operands. What is left to say is when a result is finite, and that a finite number
is determined by its value, except that there are two zeros.
-/

namespace PocketCalculator.Binary64

/-! ## Finite numbers -/

theorem toRat_finite_false (m : Magnitude) : (finite false m).toRat = codeValue m.code :=
  m.toRat_eq

theorem toRat_finite_true (m : Magnitude) : (finite true m).toRat = -codeValue m.code := by
  rw [← m.toRat_eq]
  rfl

theorem abs_toRat_finite (s : Bool) (m : Magnitude) : |(finite s m).toRat| = codeValue m.code := by
  cases s
  · rw [toRat_finite_false, abs_of_nonneg (codeValue_nonneg _)]
  · rw [toRat_finite_true, abs_neg, abs_of_nonneg (codeValue_nonneg _)]

theorem representable_toRat (x : Binary64) : Representable x.toRat := by
  cases x with
  | finite s m => exact ⟨m.code, abs_toRat_finite s m⟩
  | infinite s => exact representable_zero
  | nan => exact representable_zero

theorem toRat_zero (s : Bool) : (zero s).toRat = 0 := by
  have h := abs_toRat_finite s .zero
  rwa [show Magnitude.zero.code = 0 from rfl, codeValue_zero, abs_eq_zero] at h

theorem zero_inj {s t : Bool} : zero s = zero t ↔ s = t :=
  ⟨fun h ↦ by cases h; rfl, congrArg zero⟩

theorem toRat_eq_zero_iff {s : Bool} {m : Magnitude} : (finite s m).toRat = 0 ↔ m = .zero := by
  rw [← abs_eq_zero, abs_toRat_finite, ← codeValue_zero, codeValue_strictMono.injective.eq_iff]
  exact ⟨fun h ↦ by cases m; cases h; rfl, fun h ↦ h ▸ rfl⟩

theorem toRat_neg (x : Binary64) : (-x).toRat = -x.toRat := by
  cases x with
  | finite s m =>
    cases s
    · exact (toRat_finite_true m).trans (by rw [toRat_finite_false])
    · exact (toRat_finite_false m).trans (by rw [toRat_finite_true, neg_neg])
  | infinite s => exact neg_zero.symm
  | nan => exact neg_zero.symm

@[simp] theorem isFinite_neg (x : Binary64) : (-x).isFinite = x.isFinite := by
  cases x <;> rfl

/-- A finite number that is not the negative zero is determined by its value. -/
theorem eq_of_toRat_eq {x y : Binary64} (hx : x.isFinite = true) (hy : y.isFinite = true)
    (hx₀ : x ≠ zero true) (hy₀ : y ≠ zero true) (h : x.toRat = y.toRat) : x = y := by
  obtain ⟨s, m, rfl⟩ := isFinite_iff.mp hx
  obtain ⟨t, n, rfl⟩ := isFinite_iff.mp hy
  have hmn : m = n := by
    have habs := congrArg abs h
    rw [abs_toRat_finite, abs_toRat_finite] at habs
    have hcode := codeValue_strictMono.injective habs
    cases m
    cases n
    cases hcode
    rfl
  subst hmn
  by_cases hst : s = t
  · rw [hst]
  · -- a value and its negative are equal only at zero, of which one sign is ruled out
    have hzero : m = .zero := by
      rw [← toRat_eq_zero_iff (s := s)]
      have hneg : (finite t m).toRat = -(finite s m).toRat := by
        rw [← toRat_neg]
        cases s <;> cases t <;> simp_all <;> rfl
      rw [hneg] at h
      linarith
    subst hzero
    cases s
    · cases t
      · rfl
      · exact absurd rfl hy₀
    · exact absurd rfl hx₀

/-! ## Rounding -/

theorem isFinite_ofRat_iff {q : ℚ} :
    (ofRat q).isFinite = true ↔ nearestCode |q| < infinityCode := by
  rw [ofRat]
  split_ifs with hneg
  · rw [isFinite_round, abs_of_neg hneg]
  · rw [isFinite_round, abs_of_nonneg (not_lt.mp hneg)]

theorem toRat_ofRat {q : ℚ} (h : (ofRat q).isFinite = true) :
    (ofRat q).toRat = nearestValue q := by
  have hcode := isFinite_ofRat_iff.mp h
  rw [ofRat]
  split_ifs with hneg
  · rw [abs_of_neg hneg] at hcode
    rw [round_of_lt hcode, toRat_finite_true, nearestValue, if_pos hneg]
  · rw [abs_of_nonneg (not_lt.mp hneg)] at hcode
    rw [round_of_lt hcode, toRat_finite_false, nearestValue, if_neg hneg]

theorem nearestCode_lt_of_le {q : ℚ} (hq : 0 ≤ q) {x : Binary64} (hx : x.isFinite = true)
    (h : q ≤ |x.toRat|) : nearestCode q < infinityCode := by
  obtain ⟨s, m, rfl⟩ := isFinite_iff.mp hx
  rw [abs_toRat_finite] at h
  exact ((isNearest_nearestCode hq).mono (isNearest_codeValue m.code) h).trans_lt m.code_lt

/-! ## The largest value -/

def largestValue : ℚ := (2 ^ 53 - 1) * 2 ^ 971

theorem codeValue_pred_infinityCode : codeValue (infinityCode - 1) = largestValue := by
  have hcode : infinityCode - 1 = 2045 * 4503599627370496 + 9007199254740991 := rfl
  have hunit : (2 : ℚ) ^ 971 * 2 ^ leastExponent = 2 ^ 2045 := (pow_add 2 971 leastExponent).symm
  rw [codeValue, hcode, unitsOfCode_add (.inr (by omega)) (by omega), div_eq_iff unit_pos.ne',
    largestValue, mul_assoc, hunit, Nat.cast_mul, Nat.cast_pow, Nat.cast_ofNat, Nat.cast_ofNat]
  exact congrArg (· * (2 : ℚ) ^ 2045) (by norm_num)

theorem nearestCode_lt_of_le_largestValue {q : ℚ} (hq : 0 ≤ q) (h : q ≤ largestValue) :
    nearestCode q < infinityCode := by
  rw [← codeValue_pred_infinityCode] at h
  have hcode : infinityCode - 1 < infinityCode := Nat.sub_one_lt (by decide)
  exact ((isNearest_nearestCode hq).mono (isNearest_codeValue _) h).trans_lt hcode

theorem two_pow_le_largestValue {k : ℕ} (hk : k ≤ 1023) : 2 ^ k ≤ largestValue := by
  calc (2 : ℚ) ^ k ≤ 2 ^ (52 + 971) := pow_le_pow_right₀ one_le_two hk
    _ = 2 ^ 52 * 2 ^ 971 := pow_add 2 52 971
    _ ≤ largestValue := mul_le_mul_of_nonneg_right (by norm_num) (by positivity)

theorem largestValue_lt_two_pow : largestValue < 2 ^ 1024 := by
  calc largestValue < 2 ^ 53 * 2 ^ 971 := mul_lt_mul_of_pos_right (by norm_num) (by positivity)
    _ = 2 ^ 1024 := (pow_add 2 53 971).symm

theorem nearestCode_lt_of_le_two_pow {q : ℚ} (hq : 0 ≤ q) (h : q ≤ 2 ^ 1000) :
    nearestCode q < infinityCode :=
  nearestCode_lt_of_le_largestValue hq (h.trans (two_pow_le_largestValue (by norm_num)))

theorem abs_toRat_le_largestValue (x : Binary64) : |x.toRat| ≤ largestValue := by
  have hpos : 0 ≤ largestValue :=
    (pow_nonneg zero_le_two 0).trans (two_pow_le_largestValue (by norm_num))
  cases x with
  | finite s m =>
    rw [abs_toRat_finite, ← codeValue_pred_infinityCode]
    exact codeValue_strictMono.monotone (Nat.le_sub_one_of_lt m.code_lt)
  | infinite s => exact abs_zero.trans_le hpos
  | nan => exact abs_zero.trans_le hpos

theorem toRat_le_largestValue (x : Binary64) : x.toRat ≤ largestValue :=
  (le_abs_self _).trans (abs_toRat_le_largestValue x)

theorem isFinite_ofRat_of_le_largestValue {q : ℚ} (h : |q| ≤ largestValue) :
    (ofRat q).isFinite = true :=
  isFinite_ofRat_iff.mpr (nearestCode_lt_of_le_largestValue (abs_nonneg q) h)

theorem isFinite_ofRat_of_abs_le {p q : ℚ} (hq : (ofRat q).isFinite = true) (h : |p| ≤ |q|) :
    (ofRat p).isFinite = true := by
  rw [isFinite_ofRat_iff] at hq ⊢
  exact ((isNearest_nearestCode (abs_nonneg p)).mono
    (isNearest_nearestCode (abs_nonneg q)) h).trans_lt hq

theorem isFinite_ofRat_of_le {q : ℚ} (h : |q| ≤ 2 ^ 1000) : (ofRat q).isFinite = true :=
  isFinite_ofRat_iff.mpr (nearestCode_lt_of_le_two_pow (abs_nonneg q) h)

theorem isFinite_ofRat_of_le_toRat {q : ℚ} {x : Binary64} (hx : x.isFinite = true)
    (h : |q| ≤ |x.toRat|) : (ofRat q).isFinite = true :=
  isFinite_ofRat_iff.mpr (nearestCode_lt_of_le (abs_nonneg q) hx h)

theorem isFinite_ofRat_of_nearestValue_eq {q : ℚ} {x : Binary64} (hx : x.isFinite = true)
    (h : nearestValue q = x.toRat) : (ofRat q).isFinite = true := by
  obtain ⟨s, m, rfl⟩ := isFinite_iff.mp hx
  have habs := abs_nearestValue q
  rw [h, abs_toRat_finite, nearestValue_of_nonneg (abs_nonneg q)] at habs
  rw [isFinite_ofRat_iff, ← codeValue_strictMono.injective habs]
  exact m.code_lt

/-- What is rounded to a finite number is at most the power of two beyond the largest value. -/
theorem abs_le_of_isFinite_ofRat {q : ℚ} (h : (ofRat q).isFinite = true) : |q| ≤ 2 ^ 1024 := by
  by_contra hlarge
  have hvalue := (representable_two_pow 1024).le_abs_nearestValue (not_le.mp hlarge).le
  rw [← toRat_ofRat h] at hvalue
  have hbound := (abs_toRat_le_largestValue (ofRat q)).trans_lt largestValue_lt_two_pow
  exact absurd hvalue (not_le.mpr hbound)

theorem toRat_ofRat_of_representable {q : ℚ} (hq : Representable q) (h : |q| ≤ 2 ^ 1000) :
    (ofRat q).isFinite = true ∧ (ofRat q).toRat = q :=
  ⟨isFinite_ofRat_of_le h, by rw [toRat_ofRat (isFinite_ofRat_of_le h), hq.nearestValue_eq]⟩

theorem toRat_ofNat {n : ℕ} (hn : n ≤ 2 ^ 53) :
    (ofRat n).isFinite = true ∧ (ofRat n).toRat = n := by
  refine toRat_ofRat_of_representable ?_ ?_
  · simpa using representable_intCast (n := n) (by simpa using by exact_mod_cast hn)
  · have hpow : (2 : ℚ) ^ 53 ≤ 2 ^ 1000 := pow_le_pow_right₀ one_le_two (by norm_num)
    rw [Nat.abs_cast]
    exact le_trans (by exact_mod_cast hn) hpow

theorem abs_toRat_round {s : Bool} {q : ℚ} (hq : 0 ≤ q) (h : (round s q).isFinite = true) :
    |(round s q).toRat| = nearestValue q := by
  rw [round_of_lt (isFinite_round.mp h), abs_toRat_finite, nearestValue_of_nonneg hq]

/-! ## Sums -/

theorem add_of_isFinite {x y : Binary64} (hx : x.isFinite = true) (hy : y.isFinite = true) :
    (∃ s, x.toRat + y.toRat = 0 ∧ x + y = zero s) ∨ x + y = ofRat (x.toRat + y.toRat) := by
  obtain ⟨s, m, rfl⟩ := isFinite_iff.mp hx
  obtain ⟨t, n, rfl⟩ := isFinite_iff.mp hy
  by_cases hsum : (finite s m).toRat + (finite t n).toRat = 0
  · exact .inl ⟨s && t, hsum, if_pos hsum⟩
  · exact .inr (if_neg hsum)

theorem isFinite_add_iff {x y : Binary64} (hx : x.isFinite = true) (hy : y.isFinite = true) :
    (x + y).isFinite = true ↔ (ofRat (x.toRat + y.toRat)).isFinite = true := by
  rcases add_of_isFinite hx hy with ⟨s, hsum, hadd⟩ | hadd
  · rw [hadd, hsum]
    exact iff_of_true rfl (isFinite_ofRat_of_le (by rw [abs_zero]; positivity))
  · rw [hadd]

theorem toRat_add {x y : Binary64} (hx : x.isFinite = true) (hy : y.isFinite = true)
    (h : (x + y).isFinite = true) : (x + y).toRat = nearestValue (x.toRat + y.toRat) := by
  rcases add_of_isFinite hx hy with ⟨s, hsum, hadd⟩ | hadd
  · rw [hadd, hsum, toRat_zero, nearestValue_zero]
  · rw [hadd] at h ⊢
    exact toRat_ofRat h

theorem isFinite_of_add {x y : Binary64} (h : (x + y).isFinite = true) :
    x.isFinite = true ∧ y.isFinite = true := by
  cases x with
  | finite s m =>
    cases y with
    | finite t n => exact ⟨rfl, rfl⟩
    | infinite t | nan => exact absurd h Bool.false_ne_true
  | infinite s =>
    cases y with
    | finite t n | nan => exact absurd h Bool.false_ne_true
    | infinite t =>
      change (if s = t then infinite s else nan).isFinite = true at h
      split_ifs at h <;> exact absurd h Bool.false_ne_true
  | nan =>
    rw [nan_add] at h
    exact absurd h Bool.false_ne_true

theorem isFinite_sub_iff {x y : Binary64} (hx : x.isFinite = true) (hy : y.isFinite = true) :
    (x - y).isFinite = true ↔ (ofRat (x.toRat - y.toRat)).isFinite = true := by
  rw [sub_eq, isFinite_add_iff hx (by rwa [isFinite_neg]), toRat_neg, sub_eq_add_neg]

theorem toRat_sub {x y : Binary64} (hx : x.isFinite = true) (hy : y.isFinite = true)
    (h : (x - y).isFinite = true) : (x - y).toRat = nearestValue (x.toRat - y.toRat) := by
  rw [sub_eq] at h ⊢
  rw [toRat_add hx (by rwa [isFinite_neg]) h, toRat_neg, sub_eq_add_neg]

/-! ## Products and quotients -/

theorem toRat_round_sign {s : Bool} {p q : ℚ} (hpq : |q| = p) (hs : if s then q ≤ 0 else 0 ≤ q)
    (h : (round s p).isFinite = true) : (round s p).toRat = nearestValue q := by
  rw [round_of_lt (isFinite_round.mp h)]
  cases s
  · rw [abs_of_nonneg (by simpa using hs)] at hpq
    rw [toRat_finite_false, hpq, nearestValue_of_nonneg (hpq ▸ by simpa using hs)]
  · rw [abs_of_nonpos (by simpa using hs)] at hpq
    have hp : 0 ≤ p := by rw [← hpq]; simpa using hs
    rw [toRat_finite_true, show q = -p by linarith, nearestValue_neg, nearestValue_of_nonneg hp]

theorem isFinite_mul_iff {x y : Binary64} (hx : x.isFinite = true) (hy : y.isFinite = true) :
    (x * y).isFinite = true ↔ (ofRat (x.toRat * y.toRat)).isFinite = true := by
  obtain ⟨s, m, rfl⟩ := isFinite_iff.mp hx
  obtain ⟨t, n, rfl⟩ := isFinite_iff.mp hy
  rw [isFinite_ofRat_iff, abs_mul, abs_toRat_finite, abs_toRat_finite, ← m.toRat_eq, ← n.toRat_eq]
  exact isFinite_round

theorem isFinite_of_mul {x y : Binary64} (h : (x * y).isFinite = true) :
    x.isFinite = true ∧ y.isFinite = true := by
  cases x with
  | finite s m =>
    cases y with
    | finite t n => exact ⟨rfl, rfl⟩
    | infinite t =>
      change (if m = .zero then nan else infinite (s ^^ t)).isFinite = true at h
      split_ifs at h <;> exact absurd h Bool.false_ne_true
    | nan => exact absurd h Bool.false_ne_true
  | infinite s =>
    cases y with
    | finite t n =>
      change (if n = .zero then nan else infinite (s ^^ t)).isFinite = true at h
      split_ifs at h <;> exact absurd h Bool.false_ne_true
    | infinite t => exact absurd h Bool.false_ne_true
    | nan => exact absurd h Bool.false_ne_true
  | nan =>
    rw [nan_mul] at h
    exact absurd h Bool.false_ne_true

theorem toRat_mul {x y : Binary64} (hx : x.isFinite = true) (hy : y.isFinite = true)
    (h : (x * y).isFinite = true) : (x * y).toRat = nearestValue (x.toRat * y.toRat) := by
  obtain ⟨s, m, rfl⟩ := isFinite_iff.mp hx
  obtain ⟨t, n, rfl⟩ := isFinite_iff.mp hy
  refine toRat_round_sign ?_ ?_ h
  · rw [abs_mul, abs_toRat_finite, abs_toRat_finite, ← m.toRat_eq, ← n.toRat_eq]
  · have hproduct := mul_nonneg (codeValue_nonneg m.code) (codeValue_nonneg n.code)
    cases s <;> cases t <;> simp [toRat_finite_false, toRat_finite_true, hproduct]

theorem div_finite {s t : Bool} {m n : Magnitude} (hn : n ≠ .zero) :
    finite s m / finite t n = round (s ^^ t) (m.toRat / n.toRat) :=
  if_neg hn

/-- What is divided to a finite number is finite. The divisor may be an infinity. -/
theorem isFinite_of_div {x y : Binary64} (h : (x / y).isFinite = true) :
    x.isFinite = true ∧ y ≠ nan := by
  cases x with
  | finite s m =>
    cases y with
    | finite t n | infinite t => exact ⟨rfl, by simp⟩
    | nan => exact absurd h Bool.false_ne_true
  | infinite s => cases y <;> exact absurd h Bool.false_ne_true
  | nan =>
    rw [nan_div] at h
    exact absurd h Bool.false_ne_true

theorem isFinite_div_iff {x y : Binary64} (hx : x.isFinite = true) (hy : y.isFinite = true)
    (hy₀ : y.toRat ≠ 0) :
    (x / y).isFinite = true ↔ (ofRat (x.toRat / y.toRat)).isFinite = true := by
  obtain ⟨s, m, rfl⟩ := isFinite_iff.mp hx
  obtain ⟨t, n, rfl⟩ := isFinite_iff.mp hy
  rw [Ne, toRat_eq_zero_iff] at hy₀
  rw [isFinite_ofRat_iff, abs_div, abs_toRat_finite, abs_toRat_finite, ← m.toRat_eq, ← n.toRat_eq,
    div_finite hy₀]
  exact isFinite_round

theorem toRat_div {x y : Binary64} (hx : x.isFinite = true) (hy : y.isFinite = true)
    (hy₀ : y.toRat ≠ 0) (h : (x / y).isFinite = true) :
    (x / y).toRat = nearestValue (x.toRat / y.toRat) := by
  obtain ⟨s, m, rfl⟩ := isFinite_iff.mp hx
  obtain ⟨t, n, rfl⟩ := isFinite_iff.mp hy
  rw [Ne, toRat_eq_zero_iff] at hy₀
  rw [div_finite hy₀] at h ⊢
  refine toRat_round_sign ?_ ?_ h
  · rw [abs_div, abs_toRat_finite, abs_toRat_finite, ← m.toRat_eq, ← n.toRat_eq]
  · have hquotient := div_nonneg (codeValue_nonneg m.code) (codeValue_nonneg n.code)
    cases s <;> cases t <;>
      simp [toRat_finite_false, toRat_finite_true, hquotient, neg_div, div_neg]

theorem round_not (s : Bool) (q : ℚ) : round (!s) q = -round s q := by
  rw [round, round]
  split <;> rfl

theorem neg_div_eq (x y : Binary64) : -x / y = -(x / y) := by
  have hsign : ∀ s t, (!s ^^ t) = !(s ^^ t) := Bool.not_xor
  cases x with
  | nan =>
    rw [nan_div]
    exact nan_div y
  | infinite s =>
    cases y with
    | finite t n => exact congrArg infinite (hsign s t)
    | infinite t | nan => rfl
  | finite s m =>
    cases y with
    | infinite t => exact congrArg zero (hsign s t)
    | nan => rfl
    | finite t n =>
      by_cases hn : n = .zero
      · have hzero : ∀ s, finite s m / finite t n =
            if m = .zero then nan else infinite (s ^^ t) := fun _ ↦ if_pos hn
        change finite (!s) m / finite t n = _
        rw [hzero, hzero, hsign]
        split_ifs <;> rfl
      · rw [div_finite hn, ← round_not, ← hsign]
        exact div_finite hn

/-! ## Order -/

theorem le_iff_toRat {x y : Binary64} (hx : x.isFinite = true) (hy : y.isFinite = true) :
    x ≤ y ↔ x.toRat ≤ y.toRat := by
  obtain ⟨s, m, rfl⟩ := isFinite_iff.mp hx
  obtain ⟨t, n, rfl⟩ := isFinite_iff.mp hy
  exact finite_le_finite

end PocketCalculator.Binary64
