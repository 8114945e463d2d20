import PocketCalculator.Proofs.Calculation.Powers

/-!
# Rounding to decimal places is monotone

Each step by which a number is rounded to decimal places is monotone, and so are the steps together
(`roundedQuotient_mono`). But a number is left as it is where scaling it overflows, and then it has
to be shown that a number beside it that is rounded does not get past it.

## Where scaling begins to overflow

What is rounded was scaled to a finite number, and the whole number that this is rounded to is a
finite number, too. Scaled back, it is no larger than any value that overflows
(`abs_roundToPlaces_le`). That settles all pairs of which the larger one in absolute value overflows
without being raised.

Raising makes a difference only below 8. Scaling so small a number overflows only with the last
power of ten, and only from about one and a half on (`eq_and_lt_of_overflow`). There two values are
at least `2 ^ -52` apart. So the smaller number is raised to at most the larger one, and scaling
that and scaling it back is off by less than half of `2 ^ -52` (`scaledBack_le`): too little to get
past the larger number.
-/

namespace PocketCalculator

open Binary64 (epsilon placesFactor)

/-! ## Scaling and scaling back -/

/-- Scaling, rounding to a whole number and scaling back, in rationals. -/
def scaledBack (factor q : ℚ) : ℚ :=
  nearestValue (round (nearestValue (q * factor)) / factor)

theorem roundedQuotient_eq_scaledBack (factor q : ℚ) :
    roundedQuotient factor q = scaledBack factor (nearestValue (q + 1 / 2 ^ 52)) := rfl

theorem scaledBack_mono {factor p q : ℚ} (hfactor : 0 ≤ factor) (h : p ≤ q) :
    scaledBack factor p ≤ scaledBack factor q := by
  have hround : round (nearestValue (p * factor)) ≤ round (nearestValue (q * factor)) :=
    round_mono (nearestValue_mono (mul_le_mul_of_nonneg_right h hfactor))
  exact nearestValue_mono (div_le_div_of_nonneg_right (Int.cast_le.mpr hround) hfactor)

theorem nearestValue_add_mono {p q : ℚ} (h : p ≤ q) :
    nearestValue (p + 1 / 2 ^ 52) ≤ nearestValue (q + 1 / 2 ^ 52) :=
  nearestValue_mono (add_le_add_left h _)

theorem roundedQuotient_mono {factor p q : ℚ} (hfactor : 0 ≤ factor) (h : p ≤ q) :
    roundedQuotient factor p ≤ roundedQuotient factor q :=
  scaledBack_mono hfactor (nearestValue_add_mono h)

/-! ## Values beside one another -/

/-- Beyond 1, a value is at least the spacing after 1 larger than any smaller one. -/
theorem Representable.add_le_of_lt {x y : ℚ} (hx : Representable x) (hy : Representable y)
    (h : x < y) (hone : 1 < y) : x + 1 / 2 ^ 52 ≤ y := by
  -- below 1 the smaller value need not be a multiple of the spacing, but 1 is one
  wlog hlarge : 1 ≤ x with hmultiple
  · have := hmultiple representable_one hy hone hone le_rfl
    linarith
  have hpow : (0 : ℚ) < 2 ^ 52 := by positivity
  obtain ⟨m, rfl⟩ := exists_int_of_representable (t := 52) hx (by decide)
    (le_trans (by norm_num) (hlarge.trans (le_abs_self x)))
  obtain ⟨n, rfl⟩ := exists_int_of_representable (t := 52) hy (by decide)
    (le_trans (by norm_num) (hone.le.trans (le_abs_self y)))
  rw [div_lt_div_iff_of_pos_right hpow] at h
  have hmn : ((m + 1 : ℤ) : ℚ) ≤ n := Int.cast_le.mpr (Int.cast_lt.mp h)
  rw [← add_div, div_le_div_iff_of_pos_right hpow]
  exact_mod_cast hmn

theorem Representable.nearestValue_le_of_lt {y q : ℚ} (hy : Representable y) (hone : 1 ≤ y)
    (h : q < y + 1 / 2 ^ 53) : nearestValue q ≤ y := by
  rcases le_total q y with hbelow | habove
  · exact hy.nearestValue_le hbelow
  · by_contra hlt
    have hnext := hy.add_le_of_lt (representable_nearestValue q) (not_le.mp hlt)
      (hone.trans_lt (not_le.mp hlt))
    -- the value itself is nearer
    have hnearer := hy.abs_nearestValue_sub_le q
    rw [abs_sub_comm y, abs_of_nonneg (sub_nonneg.mpr habove)] at hnearer
    linarith [le_abs_self (nearestValue q - q)]

/-- Scaling by a large factor and scaling back is off by less than half of that spacing. -/
theorem scaledBack_le {factor a y : ℚ} (hfactor : 17 * 2 ^ 1019 ≤ factor) (hy : Representable y)
    (hone : 1 ≤ y) (hay : a ≤ y) (ha : |a * factor| ≤ 2 ^ 1024) : scaledBack factor a ≤ y := by
  have hpos : 0 < factor := lt_of_lt_of_le (by positivity) hfactor
  have herror : |nearestValue (a * factor) - a * factor| ≤ 2 ^ 971 / 2 :=
    abs_nearestValue_sub_le_two_pow (ha.trans_eq (pow_add 2 53 971))
  have hround := round_le_add_half (nearestValue (a * factor))
  have hscaled := mul_le_mul_of_nonneg_right hay hpos.le
  refine hy.nearestValue_le_of_lt hone ((div_lt_iff₀ hpos).mpr ?_)
  have hlarge : (2 : ℚ) ^ 4 ≤ 2 ^ 970 := pow_le_pow_right₀ one_le_two (by norm_num)
  rw [show (2 : ℚ) ^ 971 = 2 ^ 970 * 2 from pow_succ 2 970] at herror
  rw [show (2 : ℚ) ^ 1019 = 2 ^ 970 * 2 ^ 49 from pow_add 2 970 49] at hfactor
  generalize (2 : ℚ) ^ 970 = unit at hlarge herror hfactor
  linarith [le_abs_self (nearestValue (a * factor) - a * factor)]

/-! ## In numbers -/

variable {x y : Binary64} {places : ℕ}

theorem abs_roundToPlaces_le (h : ((x + epsilon) * placesFactor places).isFinite = true) {v : ℚ}
    (hv : Representable v)
    (hoverflow : (Binary64.ofRat (v * (placesFactor places).toRat)).isFinite = false) :
    |(x.roundToPlaces places).toRat| ≤ |v| := by
  have hfactor := (Binary64.isFinite_of_mul h).2
  have hpos := placesFactor_pos hfactor
  obtain ⟨hwhole, hwhole'⟩ := toRat_roundHalfUp h
  rw [(toRat_roundToPlaces_of_isFinite hfactor h).2]
  refine hv.abs.abs_nearestValue_le ?_
  rw [abs_div, abs_of_pos hpos, div_le_iff₀ hpos]
  by_contra hlt
  -- what is no larger than the whole number does not overflow
  have hle : |v * (placesFactor places).toRat| ≤
      |((x + epsilon) * placesFactor places).roundHalfUp.toRat| := by
    rw [hwhole', abs_mul, abs_of_pos hpos]
    exact (not_le.mp hlt).le
  rw [Binary64.isFinite_ofRat_of_le_toRat hwhole hle] at hoverflow
  exact Bool.noConfusion hoverflow

theorem lt_of_overflow {a b c factor : ℚ} (hfactor : 0 < factor) (hab : a ≤ b)
    (hfinite : (Binary64.ofRat (a * factor)).isFinite = true)
    (hoverflow : ¬ (Binary64.ofRat (b * factor)).isFinite = true)
    (hc : factor * c ≤ Binary64.largestValue) : c < b := by
  by_contra hle
  refine hoverflow ?_
  rcases le_or_gt 0 b with hpos | hneg
  · refine Binary64.isFinite_ofRat_of_le_largestValue ?_
    rw [abs_of_nonneg (mul_nonneg hpos hfactor.le), mul_comm]
    exact (mul_le_mul_of_nonneg_left (not_lt.mp hle) hfactor.le).trans hc
  · refine Binary64.isFinite_ofRat_of_abs_le hfinite ?_
    rw [abs_mul, abs_mul, abs_of_neg hneg, abs_of_neg (hab.trans_lt hneg)]
    exact mul_le_mul_of_nonneg_right (neg_le_neg hab) (abs_nonneg factor)

/-- Scaling a number below 8 overflows only with the last power of ten, and only from about one and
a half on. -/
theorem eq_and_lt_of_overflow {p q : ℚ} (hfactor : (placesFactor places).isFinite = true)
    (h : p ≤ q) (hsmall : q < 8)
    (hfinite : (Binary64.ofRat
      (nearestValue (p + 1 / 2 ^ 52) * (placesFactor places).toRat)).isFinite = true)
    (hoverflow : ¬ (Binary64.ofRat
      (nearestValue (q + 1 / 2 ^ 52) * (placesFactor places).toRat)).isFinite = true) :
    places = 308 ∧ 3 / 2 < q + 1 / 2 ^ 52 := by
  have hplaces := isFinite_placesFactor_iff.mp hfactor
  have hbound := fun c ↦ lt_of_overflow (c := c) (placesFactor_pos hfactor)
    (nearestValue_add_mono h) hfinite hoverflow
  constructor
  · by_contra hne
    have hover := hbound 9 (placesFactor_mul_nine_le_largestValue (by omega))
    have hnine : Representable ((9 : ℤ) : ℚ) := representable_intCast (by norm_num)
    have hraised := hnine.nearestValue_le (q := q + 1 / 2 ^ 52) (by push_cast; linarith)
    push_cast at hraised
    linarith
  · have hover := hbound (3 / 2) (placesFactor_mul_le_largestValue hplaces)
    have hhalf : Representable (3 / 2) := by
      simpa using representable_div_two_pow (n := 3) (t := 1) (by norm_num) (by decide)
    by_contra hle
    exact absurd (hhalf.nearestValue_le (not_lt.mp hle)) (not_le.mpr hover)

/-- **Where the larger number overflows**, the smaller one does not get past it. -/
theorem roundToPlaces_le_of_overflow (hx : x.isFinite = true) (hy : y.isFinite = true)
    (h : x.toRat ≤ y.toRat) (hfinite : ((x + epsilon) * placesFactor places).isFinite = true)
    (hoverflow : ¬ ((y + epsilon) * placesFactor places).isFinite = true) :
    (x.roundToPlaces places).toRat ≤ y.toRat := by
  have hfactor := (Binary64.isFinite_of_mul hfinite).2
  have hrep := Binary64.representable_toRat y
  have hproduct := (isFinite_scaled_iff hx hfactor).mp hfinite
  have hproduct' := mt (isFinite_scaled_iff hy hfactor).mpr hoverflow
  rcases le_or_gt 8 y.toRat with hlarge | hsmall
  · -- the larger number overflows without being raised
    have habs := abs_of_nonneg (le_trans (by norm_num) hlarge : 0 ≤ y.toRat)
    rw [nearestValue_add_epsilon hrep (hlarge.trans_eq habs.symm), Bool.not_eq_true] at hproduct'
    calc (x.roundToPlaces places).toRat ≤ |(x.roundToPlaces places).toRat| := le_abs_self _
      _ ≤ |y.toRat| := abs_roundToPlaces_le hfinite hrep hproduct'
      _ = y.toRat := habs
  · obtain ⟨rfl, hhalf⟩ := eq_and_lt_of_overflow hfactor h hsmall hproduct hproduct'
    have hlt : x.toRat < y.toRat := h.lt_of_ne fun heq ↦ hproduct' (heq ▸ hproduct)
    -- the smaller number is raised to at most the larger one
    have hraised : nearestValue (x.toRat + 1 / 2 ^ 52) ≤ y.toRat :=
      hrep.nearestValue_le
        ((Binary64.representable_toRat x).add_le_of_lt hrep hlt (by linarith))
    rw [toRat_roundToPlaces_eq hx hfinite, roundedQuotient_eq_scaledBack]
    exact scaledBack_le le_toRat_placesFactor hrep (by linarith) hraised
      (Binary64.abs_le_of_isFinite_ofRat hproduct)

/-- Where the smaller number overflows, it is negative, and the larger one is rounded to no less. -/
theorem le_roundToPlaces_of_overflow (hx : x.isFinite = true) (hy : y.isFinite = true)
    (h : x.toRat ≤ y.toRat) (hfinite : ((y + epsilon) * placesFactor places).isFinite = true)
    (hoverflow : ¬ ((x + epsilon) * placesFactor places).isFinite = true) :
    x.toRat ≤ (y.roundToPlaces places).toRat := by
  have hfactor := (Binary64.isFinite_of_mul hfinite).2
  have hpos := placesFactor_pos hfactor
  have hproduct := (isFinite_scaled_iff hy hfactor).mp hfinite
  have hproduct' := mt (isFinite_scaled_iff hx hfactor).mpr hoverflow
  have hneg : nearestValue (x.toRat + 1 / 2 ^ 52) < 0 := by
    by_contra hnonneg
    have hnonneg := not_lt.mp hnonneg
    have hraised := nearestValue_add_mono h
    refine hproduct' (Binary64.isFinite_ofRat_of_abs_le hproduct ?_)
    rw [abs_of_nonneg (mul_nonneg hnonneg hpos.le),
      abs_of_nonneg (mul_nonneg (hnonneg.trans hraised) hpos.le)]
    exact mul_le_mul_of_nonneg_right hraised hpos.le
  have hbound := abs_roundToPlaces_le hfinite (representable_nearestValue _)
    (Bool.not_eq_true _ ▸ hproduct')
  rw [abs_of_neg hneg] at hbound
  calc x.toRat ≤ nearestValue (x.toRat + 1 / 2 ^ 52) :=
        (Binary64.representable_toRat x).le_nearestValue (by norm_num)
    _ ≤ (y.roundToPlaces places).toRat := neg_le_neg_iff.mp ((neg_le_abs _).trans hbound)

/-- **Rounding is monotone**, for any number of places. -/
theorem roundToPlaces_mono (hx : x.isFinite = true) (hy : y.isFinite = true) (h : x ≤ y)
    (places : ℕ) : x.roundToPlaces places ≤ y.roundToPlaces places := by
  rw [Binary64.le_iff_toRat hx hy] at h
  rw [Binary64.le_iff_toRat (isFinite_roundToPlaces hx places) (isFinite_roundToPlaces hy places)]
  by_cases hx' : ((x + epsilon) * placesFactor places).isFinite = true
  · by_cases hy' : ((y + epsilon) * placesFactor places).isFinite = true
    · have hpos := placesFactor_pos (Binary64.isFinite_of_mul hx').2
      rw [toRat_roundToPlaces_eq hx hx', toRat_roundToPlaces_eq hy hy']
      exact roundedQuotient_mono hpos.le h
    · have hkept := Binary64.roundToPlaces_of_overflow (Bool.not_eq_true _ ▸ hy')
      rw [hkept]
      exact roundToPlaces_le_of_overflow hx hy h hx' hy'
  · have hkept := Binary64.roundToPlaces_of_overflow (Bool.not_eq_true _ ▸ hx')
    rw [hkept]
    by_cases hy' : ((y + epsilon) * placesFactor places).isFinite = true
    · exact le_roundToPlaces_of_overflow hx hy h hy' hx'
    · have hkept := Binary64.roundToPlaces_of_overflow (Bool.not_eq_true _ ▸ hy')
      rwa [hkept]

/-- With 308 places, the larger one of two numbers beside one another overflows, and the smaller one
does not. -/
theorem roundToPlaces_mono_before_overflow :
    let x := Binary64.ofBits 0x3ffcc359e067a342
    let y := Binary64.ofBits 0x3ffcc359e067a343
    x.isFinite = true ∧ y.isFinite = true ∧ x ≤ y ∧ x.roundToPlaces 308 ≤ y.roundToPlaces 308 ∧
      ((x + epsilon) * placesFactor 308).isFinite = true ∧
      ((y + epsilon) * placesFactor 308).isFinite = false := by
  intro x y
  have hx : x.isFinite = true := by decide +kernel
  have hy : y.isFinite = true := by decide +kernel
  have hle : x ≤ y := by decide +kernel
  exact ⟨hx, hy, hle, roundToPlaces_mono hx hy hle 308, by decide +kernel, by decide +kernel⟩

end PocketCalculator
