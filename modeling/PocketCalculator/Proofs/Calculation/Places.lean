import PocketCalculator.Calculation.Basic
import PocketCalculator.Proofs.Binary64.Operations

/-!
# Rounding to decimal places, in rationals

Of the steps by which a number is rounded to decimal places, three round: raising the number,
scaling it, and scaling it back. What lies between is exact (`toRat_roundHalfUp`): a number large
enough for its floor to need many bits is whole already, and the part after the point is only
inexact where it is more than a half anyway. The powers of ten up to the twenty-second are exact,
too (`toRat_placesFactor`), so that rounding to as many places is a function on rationals with three
roundings in it (`toRat_roundToPlaces`).
-/

namespace PocketCalculator

open Binary64 (epsilon maxPlaces placesFactor powFrom)

/-! ## Whole numbers -/

/-- The part after the point is a value again, unless it is more than a half. -/
theorem Representable.fract {q : ℚ} (hq : Representable q) (hlt : Int.fract q < 1 / 2) :
    Representable (Int.fract q) := by
  by_cases hsmall : |q| < 1 / 2
  · obtain ⟨hlow, hhigh⟩ := abs_lt.mp hsmall
    rcases le_or_gt 0 q with hpos | hneg
    · rwa [Int.fract_eq_self.mpr ⟨hpos, by linarith⟩]
    · have hfloor : ⌊q⌋ = -1 :=
        Int.floor_eq_iff.mpr ⟨by push_cast; linarith, by push_cast; linarith⟩
      rw [Int.fract, hfloor] at hlt
      push_cast at hlt
      linarith
  · obtain ⟨n, rfl⟩ := exists_int_of_representable (t := 53) hq (by decide)
      (le_trans (by norm_num) (not_lt.mp hsmall))
    have hfract : Int.fract ((n : ℚ) / 2 ^ 53) =
        ((n - ⌊(n : ℚ) / 2 ^ 53⌋ * 2 ^ 53 : ℤ) : ℚ) / 2 ^ 53 := by
      rw [Int.fract, Int.cast_sub, sub_div, Int.cast_mul, Int.cast_pow, Int.cast_ofNat,
        mul_div_cancel_right₀ _ (by positivity)]
    rw [hfract] at hlt ⊢
    have hnonneg := hfract ▸ Int.fract_nonneg ((n : ℚ) / 2 ^ 53)
    rw [div_lt_iff₀ (by positivity)] at hlt
    rw [le_div_iff₀ (by positivity), zero_mul] at hnonneg
    refine representable_div_two_pow (abs_le.mpr ⟨?_, ?_⟩) (by decide)
    · have := Int.cast_nonneg_iff.mp hnonneg
      omega
    · have : ((n - ⌊(n : ℚ) / 2 ^ 53⌋ * 2 ^ 53 : ℤ) : ℚ) < (2 ^ 53 : ℤ) :=
        hlt.trans (by norm_num)
      exact (Int.cast_lt.mp this).le

/-- A value is whole, or so small that the whole numbers around it have few bits. -/
theorem Representable.eq_intCast_or_abs_lt {q : ℚ} (hq : Representable q) :
    (∃ n : ℤ, q = n) ∨ |q| < 2 ^ 52 := by
  rcases le_or_gt ((2 : ℚ) ^ 52) |q| with hlarge | hsmall
  · obtain ⟨n, hn⟩ :=
      exists_int_of_representable (t := 0) hq (Nat.zero_le _) (by simpa using hlarge)
    exact .inl ⟨n, by simpa using hn⟩
  · exact .inr hsmall

theorem Representable.intCast_of_abs_sub_lt {q : ℚ} (hq : Representable q) {n : ℤ}
    (hn : |q - n| < 1) : Representable n := by
  rcases hq.eq_intCast_or_abs_lt with ⟨k, rfl⟩ | hsmall
  · have hkn : |k - n| < 1 := by exact_mod_cast hn
    rwa [← sub_eq_zero.mp (Int.abs_lt_one_iff.mp hkn)]
  · have hbound : |(n : ℚ)| < 2 ^ 52 + 1 := by
      have := abs_sub_abs_le_abs_sub (n : ℚ) q
      rw [abs_sub_comm] at hn
      linarith
    have hbound' : |n| < 2 ^ 52 + 1 := by exact_mod_cast hbound
    exact representable_intCast (by omega)

theorem toRat_ofRat_intCast {x : Binary64} (hx : x.isFinite = true) {n : ℤ}
    (hn : |x.toRat - n| < 1) :
    (Binary64.ofRat n).isFinite = true ∧ (Binary64.ofRat n).toRat = n := by
  have hrep := (Binary64.representable_toRat x).intCast_of_abs_sub_lt hn
  have hfinite : (Binary64.ofRat n).isFinite = true := by
    rcases (Binary64.representable_toRat x).eq_intCast_or_abs_lt with ⟨k, hk⟩ | hsmall
    · rw [hk] at hn
      have hkn : |k - n| < 1 := by exact_mod_cast hn
      refine Binary64.isFinite_ofRat_of_le_toRat hx ?_
      rw [hk, sub_eq_zero.mp (Int.abs_lt_one_iff.mp hkn)]
    · have hpow : (2 : ℚ) ^ 53 ≤ 2 ^ 1000 := pow_le_pow_right₀ one_le_two (by norm_num)
      refine Binary64.isFinite_ofRat_of_le (le_trans ?_ hpow)
      have := abs_sub_abs_le_abs_sub (n : ℚ) x.toRat
      rw [abs_sub_comm] at hn
      linarith
  exact ⟨hfinite, by rw [Binary64.toRat_ofRat hfinite, hrep.nearestValue_eq]⟩

theorem toRat_floor {x : Binary64} (hx : x.isFinite = true) :
    x.floor.isFinite = true ∧ x.floor.toRat = ⌊x.toRat⌋ := by
  obtain ⟨s, m, rfl⟩ := Binary64.isFinite_iff.mp hx
  rw [Binary64.floor]
  split_ifs with hm
  · rw [Binary64.toRat_eq_zero_iff.mpr hm, Int.floor_zero, Int.cast_zero]
    exact ⟨rfl, rfl⟩
  · rw [floor_eq]
    refine toRat_ofRat_intCast hx ?_
    rw [Int.self_sub_floor, Int.abs_fract]
    exact Int.fract_lt_one _

theorem round_mono {p q : ℚ} (h : p ≤ q) : round p ≤ round q := by
  rw [round_eq, round_eq]
  exact Int.floor_mono (add_le_add_left h _)

/-- Rounding the part after the point does not change whether it is a half or more. -/
theorem half_le_nearestValue_fract_iff {q : ℚ} (hq : Representable q) :
    1 / 2 ≤ nearestValue (Int.fract q) ↔ 1 / 2 ≤ Int.fract q := by
  have hhalf : Representable (1 / 2) := by
    simpa using representable_one_div_two_pow (t := 1) (by decide)
  constructor
  · intro h
    by_contra hlt
    rw [(hq.fract (not_le.mp hlt)).nearestValue_eq] at h
    exact hlt h
  · exact hhalf.le_nearestValue

theorem toRat_roundHalfUp {x : Binary64} (hx : x.isFinite = true) :
    x.roundHalfUp.isFinite = true ∧ x.roundHalfUp.toRat = round x.toRat := by
  obtain ⟨hfloor, hfloor'⟩ := toRat_floor hx
  have hfract : x.toRat - x.floor.toRat = Int.fract x.toRat := by rw [hfloor', Int.self_sub_floor]
  have hsub : (x - x.floor).isFinite = true := by
    rw [Binary64.isFinite_sub_iff hx hfloor, hfract]
    refine Binary64.isFinite_ofRat_of_le ?_
    rw [Int.abs_fract]
    exact (Int.fract_lt_one _).le.trans (one_le_pow₀ one_le_two)
  have hcond : Binary64.ofRat (1 / 2) ≤ x - x.floor ↔ 1 / 2 ≤ Int.fract x.toRat := by
    obtain ⟨hhalf, hhalf'⟩ := Binary64.toRat_ofRat_of_representable (q := 1 / 2)
      (by simpa using representable_one_div_two_pow (t := 1) (by decide))
      (le_trans (by norm_num) (one_le_pow₀ one_le_two))
    rw [Binary64.le_iff_toRat hhalf hsub, hhalf', Binary64.toRat_sub hx hfloor hsub, hfract,
      half_le_nearestValue_fract_iff (Binary64.representable_toRat x)]
  rw [Binary64.roundHalfUp]
  have hdecomp := Int.floor_add_fract x.toRat
  split_ifs with hhalf
  · obtain ⟨hone, hone'⟩ : (1 : Binary64).isFinite = true ∧ (1 : Binary64).toRat = (1 : ℕ) :=
      Binary64.toRat_ofNat (by norm_num)
    have hround : round x.toRat = ⌊x.toRat⌋ + 1 := by
      rw [round_eq_iff]
      push_cast
      have := hcond.mp hhalf
      exact ⟨by linarith, by linarith [Int.fract_lt_one x.toRat]⟩
    have hsum : x.floor.toRat + (1 : Binary64).toRat = round x.toRat := by
      rw [hfloor', hone', hround, Nat.cast_one, Int.cast_add, Int.cast_one]
    have hround' : |x.toRat - round x.toRat| < 1 := (abs_sub_round _).trans_lt (by norm_num)
    have hfinite : (x.floor + 1).isFinite = true := by
      rw [Binary64.isFinite_add_iff hfloor hone, hsum]
      exact (toRat_ofRat_intCast hx hround').1
    refine ⟨hfinite, ?_⟩
    rw [Binary64.toRat_add hfloor hone hfinite, hsum]
    exact ((Binary64.representable_toRat x).intCast_of_abs_sub_lt hround').nearestValue_eq
  · refine ⟨hfloor, hfloor'.trans ?_⟩
    rw [Int.cast_inj, eq_comm, round_eq_iff]
    have := not_le.mp (mt hcond.mpr hhalf)
    exact ⟨by linarith [Int.fract_nonneg x.toRat], by linarith⟩

/-! ## Powers of ten -/

theorem ten_pow_representable {n : ℕ} (hn : n ≤ 22) : Representable (10 ^ n) := by
  have hfive : |(5 : ℤ) ^ n| ≤ 2 ^ 53 := by
    rw [abs_of_pos (by positivity)]
    exact (pow_le_pow_right₀ (by norm_num) hn).trans (by norm_num)
  have h := representable_intCast_mul_two_pow hfive n
  rw [Int.cast_pow, ← mul_pow] at h
  norm_num at h
  exact h

/-- What products keep, a power formed by repeated squaring has, with the exponents of its factors
added up. -/
theorem powFrom_induction {P : ℕ → Binary64 → Prop}
    (hmul : ∀ {a b x y}, P a x → P b y → P (a + b) (x * y)) {acc base : Binary64} {a b : ℕ}
    (hacc : P a acc) (hbase : P b base) (n : ℕ) : P (a + b * n) (powFrom acc base n) := by
  induction n using Nat.strong_induction_on generalizing acc base a b with
  | _ n ih =>
    have hacc' : P (a + b * (n % 2)) (if n % 2 = 1 then acc * base else acc) := by
      rcases Nat.mod_two_eq_zero_or_one n with hmod | hmod
      · rwa [hmod, if_neg Nat.zero_ne_one]
      · rw [hmod, if_pos rfl, Nat.mul_one]
        exact hmul hacc hbase
    have hsplit : b * n = b * (n % 2) + (b + b) * (n / 2) := by
      rw [← Nat.two_mul, Nat.mul_comm 2 b, Nat.mul_assoc, ← Nat.mul_add, Nat.mod_add_div]
    rw [powFrom, hsplit, ← Nat.add_assoc]
    by_cases hstop : n / 2 = 0
    · rwa [if_pos hstop, hstop, Nat.mul_zero, Nat.add_zero]
    · rw [if_neg hstop]
      exact ih (n / 2) (by omega) hacc' (hmul hbase hbase)

theorem placesFactor_induction {P : ℕ → Binary64 → Prop}
    (hmul : ∀ {a b x y}, P a x → P b y → P (a + b) (x * y)) (hone : P 0 1) (hten : P 1 10)
    (places : ℕ) : P (min places maxPlaces) (placesFactor places) := by
  have h := powFrom_induction hmul hone hten (min places maxPlaces)
  rwa [Nat.zero_add, Nat.one_mul] at h

theorem toRat_one : (1 : Binary64).isFinite = true ∧ (1 : Binary64).toRat = 1 := by
  obtain ⟨hfinite, hvalue⟩ := Binary64.toRat_ofNat (n := 1) (by norm_num)
  exact ⟨hfinite, hvalue.trans Nat.cast_one⟩

theorem toRat_ten : (10 : Binary64).isFinite = true ∧ (10 : Binary64).toRat = 10 :=
  Binary64.toRat_ofNat (n := 10) (by norm_num)

theorem toRat_placesFactor {places : ℕ} (h : places ≤ 22) :
    (placesFactor places).isFinite = true ∧ (placesFactor places).toRat = 10 ^ places := by
  have hexact := placesFactor_induction
    (P := fun n x ↦ n ≤ 22 → x.isFinite = true ∧ x.toRat = 10 ^ n) ?_
    (fun _ ↦ ⟨toRat_one.1, toRat_one.2.trans (pow_zero _).symm⟩)
    (fun _ ↦ ⟨toRat_ten.1, toRat_ten.2.trans (pow_one _).symm⟩) places
  · rw [Nat.min_eq_left (h.trans (by decide))] at hexact
    exact hexact h
  intro a b x y hx hy hab
  obtain ⟨hx, hx'⟩ := hx (by omega)
  obtain ⟨hy, hy'⟩ := hy (by omega)
  have hproduct : x.toRat * y.toRat = 10 ^ (a + b) := by rw [hx', hy', pow_add]
  have hfinite : (x * y).isFinite = true := by
    have hpow : (2 : ℚ) ^ 100 ≤ 2 ^ 1000 := pow_le_pow_right₀ one_le_two (by norm_num)
    rw [Binary64.isFinite_mul_iff hx hy, hproduct]
    refine Binary64.isFinite_ofRat_of_le (le_trans ?_ hpow)
    rw [abs_of_pos (by positivity)]
    exact (pow_le_pow_right₀ (by norm_num) hab).trans (by norm_num)
  refine ⟨hfinite, ?_⟩
  rw [Binary64.toRat_mul hx hy hfinite, hproduct, (ten_pow_representable hab).nearestValue_eq]

theorem one_le_placesFactor {places : ℕ} (h : (placesFactor places).isFinite = true) :
    1 ≤ (placesFactor places).toRat := by
  refine placesFactor_induction (P := fun _ x ↦ x.isFinite = true → 1 ≤ x.toRat) ?_
    (fun _ ↦ toRat_one.2.ge) (fun _ ↦ by rw [toRat_ten.2]; norm_num) places h
  intro a b x y hx hy hxy
  obtain ⟨hx', hy'⟩ := Binary64.isFinite_of_mul hxy
  rw [Binary64.toRat_mul hx' hy' hxy]
  exact representable_one.le_nearestValue (one_le_mul_of_one_le_of_one_le (hx hx') (hy hy'))

theorem placesFactor_pos {places : ℕ} (h : (placesFactor places).isFinite = true) :
    0 < (placesFactor places).toRat :=
  one_pos.trans_le (one_le_placesFactor h)

/-! ## Rounding -/

theorem toRat_epsilon : epsilon.isFinite = true ∧ epsilon.toRat = 1 / 2 ^ 52 := by
  have hvalue : (1 / twoPow fractionBits : ℚ) = 1 / 2 ^ 52 := by
    rw [twoPow_fractionBits]
    norm_num
  rw [epsilon, hvalue]
  exact Binary64.toRat_ofRat_of_representable (representable_one_div_two_pow (by decide))
    (le_trans (by norm_num) (one_le_pow₀ one_le_two))

/-- From 8 on, raising a value does nothing. -/
theorem nearestValue_add_epsilon {v : ℚ} (hv : Representable v) (hlarge : 8 ≤ |v|) :
    nearestValue (v + 1 / 2 ^ 52) = v := by
  refine hv.nearestValue_eq_of_near (t := 49) (by decide) (le_trans (by norm_num) hlarge) ?_
  rw [sub_add_cancel_left, abs_neg, abs_of_pos (by positivity)]
  norm_num

theorem toRat_add_epsilon {x : Binary64} (hx : x.isFinite = true) :
    (x + epsilon).isFinite = true ∧ (x + epsilon).toRat = nearestValue (x.toRat + 1 / 2 ^ 52) := by
  obtain ⟨hepsilon, hepsilon'⟩ := toRat_epsilon
  have hfinite : (x + epsilon).isFinite = true := by
    rw [Binary64.isFinite_add_iff hx hepsilon, hepsilon']
    rcases le_or_gt 8 |x.toRat| with hlarge | hsmall
    · exact Binary64.isFinite_ofRat_of_nearestValue_eq hx
        (nearestValue_add_epsilon (Binary64.representable_toRat x) hlarge)
    · have hpow : (2 : ℚ) ^ 4 ≤ 2 ^ 1000 := pow_le_pow_right₀ one_le_two (by norm_num)
      refine Binary64.isFinite_ofRat_of_le (((abs_add_le _ _).trans ?_).trans hpow)
      rw [abs_of_pos (by norm_num : (0 : ℚ) < 1 / 2 ^ 52)]
      linarith
  refine ⟨hfinite, ?_⟩
  rw [Binary64.toRat_add hx hepsilon hfinite, hepsilon']

theorem isFinite_scaled_iff {x : Binary64} (hx : x.isFinite = true) {places : ℕ}
    (h : (placesFactor places).isFinite = true) :
    ((x + epsilon) * placesFactor places).isFinite = true ↔
      (Binary64.ofRat
        (nearestValue (x.toRat + 1 / 2 ^ 52) * (placesFactor places).toRat)).isFinite = true := by
  obtain ⟨hfinite, hraised⟩ := toRat_add_epsilon hx
  rw [Binary64.isFinite_mul_iff hfinite h, hraised]

theorem toRat_clearZeroSign (x : Binary64) :
    x.clearZeroSign.isFinite = x.isFinite ∧ x.clearZeroSign.toRat = x.toRat := by
  rw [Binary64.clearZeroSign]
  split_ifs with hzero
  · obtain ⟨s, rfl⟩ := Binary64.isZero_iff.mp hzero
    exact ⟨rfl, by rw [Binary64.toRat_zero, Binary64.toRat_zero]⟩
  · exact ⟨rfl, rfl⟩

/-- What rounding does where scaling does not overflow: it divides a whole number by the power of
ten, which makes it no larger. -/
theorem toRat_roundToPlaces_of_isFinite {x : Binary64} {places : ℕ}
    (hfactor : (placesFactor places).isFinite = true)
    (hscaled : ((x + epsilon) * placesFactor places).isFinite = true) :
    (x.roundToPlaces places).isFinite = true ∧
      (x.roundToPlaces places).toRat =
        nearestValue (round ((x + epsilon) * placesFactor places).toRat /
          (placesFactor places).toRat) := by
  have hpos := placesFactor_pos hfactor
  obtain ⟨hwhole, hwhole'⟩ := toRat_roundHalfUp hscaled
  rw [Binary64.roundToPlaces, hscaled, hfactor, Bool.and_self, if_pos rfl,
    (toRat_clearZeroSign _).1, (toRat_clearZeroSign _).2, ← hwhole']
  have hquotient : (((x + epsilon) * placesFactor places).roundHalfUp /
      placesFactor places).isFinite = true := by
    rw [Binary64.isFinite_div_iff hwhole hfactor hpos.ne']
    refine Binary64.isFinite_ofRat_of_le_toRat hwhole ?_
    rw [abs_div, abs_of_pos hpos]
    exact div_le_self (abs_nonneg _) (one_le_placesFactor hfactor)
  exact ⟨hquotient, Binary64.toRat_div hwhole hfactor hpos.ne' hquotient⟩

theorem isFinite_roundToPlaces {x : Binary64} (hx : x.isFinite = true) (places : ℕ) :
    (x.roundToPlaces places).isFinite = true := by
  by_cases h : ((x + epsilon) * placesFactor places).isFinite = true
  · exact (toRat_roundToPlaces_of_isFinite (Binary64.isFinite_of_mul h).2 h).1
  · rwa [Binary64.roundToPlaces_of_overflow (Bool.not_eq_true _ ▸ h)]

theorem roundToPlaces_ne_negative_zero_of_isFinite {x : Binary64} {places : ℕ}
    (h : ((x + epsilon) * placesFactor places).isFinite = true) :
    x.roundToPlaces places ≠ .zero true := by
  rw [Binary64.roundToPlaces, h, (Binary64.isFinite_of_mul h).2, Bool.and_self, if_pos rfl]
  exact Binary64.clearZeroSign_ne_negative_zero _

/-- Raising by the distance from 1 to the next number, scaling, rounding to a whole number and
scaling back, in rationals. -/
def roundedQuotient (factor q : ℚ) : ℚ :=
  nearestValue (round (nearestValue (nearestValue (q + 1 / 2 ^ 52) * factor)) / factor)

/-- The whole number that is scaled back is a value. -/
theorem exists_roundedQuotient_eq (factor q : ℚ) :
    ∃ n : ℤ, Representable n ∧ roundedQuotient factor q = nearestValue (n / factor) :=
  ⟨_, (representable_nearestValue _).intCast_of_abs_sub_lt
    ((abs_sub_round _).trans_lt (by norm_num)), rfl⟩

/-- **Rounding**, where scaling does not overflow, is a function on rationals. -/
theorem toRat_roundToPlaces_eq {x : Binary64} (hx : x.isFinite = true) {places : ℕ}
    (h : ((x + epsilon) * placesFactor places).isFinite = true) :
    (x.roundToPlaces places).toRat = roundedQuotient (placesFactor places).toRat x.toRat := by
  obtain ⟨hraised, hfactor⟩ := Binary64.isFinite_of_mul h
  rw [(toRat_roundToPlaces_of_isFinite hfactor h).2, Binary64.toRat_mul hraised hfactor h,
    (toRat_add_epsilon hx).2, roundedQuotient]

theorem toRat_roundToPlaces {x : Binary64} (hx : x.isFinite = true) {places : ℕ}
    (hplaces : places ≤ 22) (h : ((x + epsilon) * placesFactor places).isFinite = true) :
    (x.roundToPlaces places).toRat = roundedQuotient (10 ^ places) x.toRat := by
  rw [toRat_roundToPlaces_eq hx h, (toRat_placesFactor hplaces).2]

/-! ## Values of expressions -/

theorem roundedValue?_eq_some_iff {places : ℕ} {expression : Text} {value : Binary64} :
    roundedValue? places expression = some value ↔
      (tokensValue (scan expression)).isFinite = true ∧
        (tokensValue (scan expression)).roundToPlaces places = value := by
  rw [roundedValue?]
  split_ifs with h
  · rw [Option.some_inj]
    exact (and_iff_right h).symm
  · exact iff_of_false not_false fun hvalue ↦ h hvalue.1

theorem isFinite_of_roundedValue? {places : ℕ} {expression : Text} {value : Binary64}
    (h : roundedValue? places expression = some value) : value.isFinite = true := by
  obtain ⟨hfinite, rfl⟩ := roundedValue?_eq_some_iff.mp h
  exact isFinite_roundToPlaces hfinite places

end PocketCalculator
