import PocketCalculator.Proofs.Binary64.Spacing

/-!
# The nearest code

Rounding chooses the code whose value is nearest, and of two equally near ones the even one. In
terms of the two neighbours of a code this says that the rational lies between the two points
halfway to them, and on one of these points only if the code is even (`IsNearest`). That describes
the code completely (`isNearest_nearestCode`, `IsNearest.unique`), and all that is known of rounding
follows from it: it is monotone, it leaves values as they are, no value is nearer, and halfway
between two values it takes the even one.
-/

namespace PocketCalculator

theorem floor_eq (q : ℚ) : q.floor = ⌊q⌋ := rfl

/-! ## The nearest whole number -/

/-- What a whole number nearest to a rational is at: no more than a half away, and exactly a half
only if it is even. -/
theorem nearestEven_spec {q : ℚ} (hq : 0 ≤ q) :
    (2 * q < 2 * nearestEven q + 1 ∨ 2 * q = 2 * nearestEven q + 1 ∧ nearestEven q % 2 = 0) ∧
      (2 * nearestEven q - 1 < 2 * q ∨
        2 * nearestEven q - 1 = 2 * q ∧ nearestEven q % 2 = 0) := by
  have hfloor : ((⌊q⌋.toNat : ℕ) : ℚ) = ⌊q⌋ := by
    exact_mod_cast Int.toNat_of_nonneg (Int.floor_nonneg.mpr hq)
  have hlow := Int.floor_le q
  have hhigh := Int.lt_floor_add_one q
  rw [← hfloor] at hlow hhigh
  rw [nearestEven, floor_eq]
  generalize ⌊q⌋.toNat = n at hlow hhigh
  split_ifs with hbelow habove
  · exact ⟨.inl (by linarith), .inl (by linarith)⟩
  · push_cast
    exact ⟨.inl (by linarith), .inl (by linarith)⟩
  · have hhalf : q - n = 1 / 2 := le_antisymm (not_lt.mp habove) (not_lt.mp hbelow)
    rcases Nat.mod_two_eq_zero_or_one n with heven | hodd
    · rw [heven, Nat.add_zero]
      exact ⟨.inr ⟨by linarith, heven⟩, .inl (by linarith)⟩
    · rw [hodd]
      push_cast
      exact ⟨.inl (by linarith), .inr ⟨by linarith, by omega⟩⟩

theorem nearestEven_le {q : ℚ} (hq : 0 ≤ q) {n : ℕ} (h : q ≤ n) : nearestEven q ≤ n := by
  have hlt : (2 * nearestEven q : ℚ) < 2 * n + 2 := by
    rcases (nearestEven_spec hq).2 with h' | ⟨h', -⟩ <;> linarith
  have : 2 * nearestEven q < 2 * n + 2 := by exact_mod_cast hlt
  omega

theorem le_nearestEven {q : ℚ} {n : ℕ} (h : n ≤ q) : n ≤ nearestEven q := by
  have hlt : (2 * n : ℚ) < 2 * nearestEven q + 2 := by
    rcases (nearestEven_spec ((Nat.cast_nonneg n).trans h)).1 with h' | ⟨h', -⟩ <;> linarith
  have : 2 * n < 2 * nearestEven q + 2 := by exact_mod_cast hlt
  omega

theorem nearestEven_eq_of_abs_sub_lt {q : ℚ} (hq : 0 ≤ q) {n : ℕ} (h : |q - n| < 1 / 2) :
    nearestEven q = n := by
  obtain ⟨hlow, hhigh⟩ := abs_lt.mp h
  obtain ⟨habove, hbelow⟩ := nearestEven_spec hq
  refine le_antisymm ?_ ?_
  · have hlt : (2 * nearestEven q : ℚ) < 2 * n + 2 := by
      rcases hbelow with h' | ⟨h', -⟩ <;> linarith
    have : 2 * nearestEven q < 2 * n + 2 := by exact_mod_cast hlt
    omega
  · have hlt : (2 * n : ℚ) < 2 * nearestEven q + 2 := by
      rcases habove with h' | ⟨h', -⟩ <;> linarith
    have : 2 * n < 2 * nearestEven q + 2 := by exact_mod_cast hlt
    omega

theorem abs_sub_nearestEven_le {q : ℚ} (hq : 0 ≤ q) : |q - nearestEven q| ≤ 1 / 2 := by
  obtain ⟨habove, hbelow⟩ := nearestEven_spec hq
  rw [abs_le]
  constructor
  · rcases hbelow with h | ⟨h, -⟩ <;> linarith
  · rcases habove with h | ⟨h, -⟩ <;> linarith

theorem nearestEven_add_half (n : ℕ) : nearestEven (n + 1 / 2) = n + n % 2 := by
  have hfloor : ⌊(n : ℚ) + 1 / 2⌋ = n :=
    Int.floor_eq_iff.mpr ⟨by push_cast; linarith, by push_cast; linarith⟩
  rw [nearestEven, floor_eq, hfloor, Int.toNat_natCast, add_sub_cancel_left,
    if_neg (lt_irrefl _), if_neg (lt_irrefl _)]

/-! ## Nearest codes -/

/-- Whether a code is the one to which a rational is rounded. -/
structure IsNearest (q : ℚ) (code : ℕ) : Prop where
  /-- It is not past the point halfway to the next code. -/
  above : 2 * q < codeValue code + codeValue (code + 1) ∨
    2 * q = codeValue code + codeValue (code + 1) ∧ code % 2 = 0
  /-- It is not before the point halfway to the code before. -/
  below : ∀ before, code = before + 1 → codeValue before + codeValue code < 2 * q ∨
    codeValue before + codeValue code = 2 * q ∧ code % 2 = 0

theorem IsNearest.mono {p q : ℚ} {c d : ℕ} (hp : IsNearest p c) (hq : IsNearest q d)
    (hpq : p ≤ q) : c ≤ d := by
  by_contra hlt
  obtain ⟨b, rfl⟩ := Nat.exists_eq_succ_of_ne_zero (by omega : c ≠ 0)
  have hdb : d ≤ b := by omega
  have h₁ := codeValue_strictMono.monotone hdb
  have h₂ := codeValue_strictMono.monotone (Nat.succ_le_succ hdb)
  -- the two halfway points can only be one, and of two adjacent codes only one is even
  rcases hp.below b rfl with hbelow | ⟨hbelow, heven⟩ <;>
    rcases hq.above with habove | ⟨habove, heven'⟩
  · linarith
  · linarith
  · linarith
  · have hvalue : codeValue d = codeValue b := by linarith
    have hd := codeValue_strictMono.injective hvalue
    omega

theorem IsNearest.unique {q : ℚ} {c d : ℕ} (hc : IsNearest q c) (hd : IsNearest q d) : c = d :=
  le_antisymm (hc.mono hd le_rfl) (hd.mono hc le_rfl)

theorem isNearest_iff_units {q : ℚ} {code : ℕ} :
    IsNearest q code ↔
      (2 * (q * 2 ^ leastExponent) < unitsOfCode code + unitsOfCode (code + 1) ∨
        2 * (q * 2 ^ leastExponent) = unitsOfCode code + unitsOfCode (code + 1) ∧ code % 2 = 0) ∧
      ∀ before, code = before + 1 →
        (unitsOfCode before + unitsOfCode code : ℚ) < 2 * (q * 2 ^ leastExponent) ∨
          (unitsOfCode before + unitsOfCode code : ℚ) = 2 * (q * 2 ^ leastExponent) ∧
            code % 2 = 0 := by
  have hscale : ∀ p : ℚ, 2 * p * 2 ^ leastExponent = 2 * (p * 2 ^ leastExponent) :=
    fun p ↦ mul_assoc 2 p _
  have hsum : ∀ c d : ℕ, (codeValue c + codeValue d) * 2 ^ leastExponent =
      unitsOfCode c + unitsOfCode d := by
    intro c d
    rw [codeValue, codeValue, ← add_div, div_mul_cancel₀ _ unit_pos.ne']
  rw [← hscale]
  simp only [← hsum, mul_lt_mul_iff_left₀ unit_pos, mul_left_inj' unit_pos.ne']
  exact ⟨fun h ↦ ⟨h.above, h.below⟩, fun h ↦ ⟨h.1, h.2⟩⟩

section

variable {w : ℚ} {k n : ℕ} (hhigh : w < 2 * 4503599627370496)
  (hlow : k = 0 ∨ 4503599627370496 ≤ w) (hn : n ≤ 2 * 4503599627370496)
  (hn' : k = 0 ∨ 4503599627370496 ≤ n)

include hhigh hn hn' in
/-- What is not past the point halfway to the next multiple of a spacing is not past the point
halfway to the next code. -/
theorem lt_or_eq_add_unitsOfCode_succ (h : 2 * w < 2 * n + 1 ∨ 2 * w = 2 * n + 1 ∧ n % 2 = 0) :
    2 * (w * 2 ^ k) < n * 2 ^ k + unitsOfCode (k * 4503599627370496 + n + 1) ∨
      2 * (w * 2 ^ k) = n * 2 ^ k + unitsOfCode (k * 4503599627370496 + n + 1) ∧ n % 2 = 0 := by
  have hpow : (0 : ℚ) < 2 ^ k := by positivity
  rcases Nat.lt_or_eq_of_le hn with hlt | rfl
  · rw [Nat.add_assoc, unitsOfCode_add (by omega) (by omega)]
    push_cast
    refine h.imp (fun h ↦ ?_) fun ⟨h, heven⟩ ↦ ⟨?_, heven⟩
    · calc 2 * (w * 2 ^ k) = 2 * w * 2 ^ k := (mul_assoc ..).symm
        _ < (2 * n + 1) * 2 ^ k := mul_lt_mul_of_pos_right h hpow
        _ = n * 2 ^ k + (n + 1) * 2 ^ k := by ring
    · rw [← mul_assoc, h]
      ring
  · -- the first value of the next spacing is already past the rational
    have hnext : ((2 * 4503599627370496 * 2 ^ k : ℕ) : ℚ) <
        unitsOfCode (k * 4503599627370496 + 2 * 4503599627370496 + 1) := by
      rw [← unitsOfCode_add (.inr (by omega)) le_rfl]
      exact_mod_cast unitsOfCode_strictMono (Nat.lt_succ_self _)
    have hw := mul_lt_mul_of_pos_right hhigh hpow
    push_cast at hnext ⊢
    exact .inl (by linarith)

include hlow hn hn' in
theorem lt_or_eq_unitsOfCode_pred_add (h : 2 * n - 1 < 2 * w ∨ 2 * n - 1 = 2 * w ∧ n % 2 = 0)
    {before : ℕ} (hbefore : k * 4503599627370496 + n = before + 1) :
    unitsOfCode before + n * 2 ^ k < 2 * (w * 2 ^ k) ∨
      unitsOfCode before + n * 2 ^ k = 2 * (w * 2 ^ k) ∧ n % 2 = 0 := by
  have hpow : (0 : ℚ) < 2 ^ k := by positivity
  by_cases hsame : k = 0 ∨ 4503599627370496 ≤ n - 1
  · obtain ⟨m, rfl⟩ := Nat.exists_eq_succ_of_ne_zero (by omega : n ≠ 0)
    rw [show before = k * 4503599627370496 + m from by omega,
      unitsOfCode_add (by omega) (by omega)]
    push_cast at h ⊢
    refine h.imp (fun h ↦ ?_) fun ⟨h, heven⟩ ↦ ⟨?_, heven⟩
    · calc (m * 2 ^ k + (m + 1) * 2 ^ k : ℚ) = (2 * (m + 1) - 1) * 2 ^ k := by ring
        _ < 2 * w * 2 ^ k := mul_lt_mul_of_pos_right h hpow
        _ = 2 * (w * 2 ^ k) := mul_assoc ..
    · rw [← mul_assoc, ← h]
      ring
  · -- the first value of a spacing is not past the rational, and the one before is less
    have hw : (n : ℚ) ≤ w := by
      have hfirst : n = 4503599627370496 := by omega
      rw [hfirst]
      exact_mod_cast hlow.resolve_left (by omega)
    have hlt : unitsOfCode before < n * 2 ^ k := by
      rw [← unitsOfCode_add hn' hn, hbefore]
      exact unitsOfCode_strictMono (Nat.lt_succ_self _)
    have hlt' : (unitsOfCode before : ℚ) < n * 2 ^ k := by exact_mod_cast hlt
    have hle := mul_le_mul_of_nonneg_right hw hpow.le
    exact .inl (by linarith)

include hhigh hlow in
/-- On the multiples of a spacing that have 53 bits, and on all of them before any doubling, the
nearest code is the nearest multiple. -/
theorem isNearest_nearestEven (hw : 0 ≤ w) :
    IsNearest (w * 2 ^ k / 2 ^ leastExponent) (k * 4503599627370496 + nearestEven w) := by
  rw [isNearest_iff_units, div_mul_cancel₀ _ unit_pos.ne']
  obtain ⟨habove, hbelow⟩ := nearestEven_spec hw
  have hn : nearestEven w ≤ 2 * 4503599627370496 :=
    nearestEven_le hw (by exact_mod_cast hhigh.le)
  have hn' : k = 0 ∨ 4503599627370496 ≤ nearestEven w :=
    hlow.imp_right fun h ↦ le_nearestEven (by exact_mod_cast h)
  have hparity : (k * 4503599627370496 + nearestEven w) % 2 = nearestEven w % 2 := by omega
  rw [hparity, unitsOfCode_add hn' hn]
  push_cast
  exact ⟨lt_or_eq_add_unitsOfCode_succ hhigh hn hn' habove,
    fun before ↦ lt_or_eq_unitsOfCode_pred_add hlow hn hn' hbelow⟩

end

/-- The spacing is chosen so that a value has at most 53 bits, and exactly 53 if it has doubled. -/
theorem spacingDoublings_spec {u : ℚ} (hu : 0 ≤ u) :
    u < 2 * 4503599627370496 * 2 ^ spacingDoublings u ∧
      (spacingDoublings u = 0 ∨ 4503599627370496 * 2 ^ spacingDoublings u ≤ u) := by
  have hfloor : ((⌊u⌋.toNat : ℕ) : ℚ) = ⌊u⌋ := by
    exact_mod_cast Int.toNat_of_nonneg (Int.floor_nonneg.mpr hu)
  have hlow := Int.floor_le u
  have hhigh := Int.lt_floor_add_one u
  rw [← hfloor] at hlow hhigh
  rw [spacingDoublings, floor_eq, show fractionBits = 52 from rfl]
  generalize ⌊u⌋.toNat = f at hlow hhigh
  have hlog : f + 1 ≤ 2 * 4503599627370496 * 2 ^ (f.log2 - 52) := by
    calc f + 1 ≤ 2 ^ (f.log2 + 1) := Nat.lt_log2_self
      _ ≤ 2 ^ (53 + (f.log2 - 52)) := Nat.pow_le_pow_right Nat.two_pos (by omega)
      _ = 2 * 4503599627370496 * 2 ^ (f.log2 - 52) := by rw [pow_add]; norm_num
  have hlog' : ((f + 1 : ℕ) : ℚ) ≤ (2 * 4503599627370496 * 2 ^ (f.log2 - 52) : ℕ) :=
    Nat.cast_le.mpr hlog
  push_cast at hlog'
  refine ⟨by linarith, ?_⟩
  by_cases hk : f.log2 - 52 = 0
  · exact .inl hk
  · have hf : f ≠ 0 := by
      rintro rfl
      exact hk rfl
    have hpow : 4503599627370496 * 2 ^ (f.log2 - 52) ≤ f := by
      calc 4503599627370496 * 2 ^ (f.log2 - 52) = 2 ^ (52 + (f.log2 - 52)) := by
            rw [pow_add]; norm_num
        _ = 2 ^ f.log2 := by rw [show 52 + (f.log2 - 52) = f.log2 from by omega]
        _ ≤ f := Nat.log2_self_le hf
    have hpow' : ((4503599627370496 * 2 ^ (f.log2 - 52) : ℕ) : ℚ) ≤ f := Nat.cast_le.mpr hpow
    push_cast at hpow'
    exact .inr (by linarith)

/-- **Rounding chooses the nearest code.** -/
theorem isNearest_nearestCode {q : ℚ} (hq : 0 ≤ q) : IsNearest q (nearestCode q) := by
  have hcode : nearestCode q =
      spacingDoublings (q * 2 ^ leastExponent) * 4503599627370496 +
        nearestEven (q * 2 ^ leastExponent / 2 ^ spacingDoublings (q * 2 ^ leastExponent)) := by
    rw [nearestCode, twoPow_fractionBits, twoPow_eq, twoPow_eq, Nat.cast_pow, Nat.cast_pow,
      Nat.cast_ofNat]
  have hu : 0 ≤ q * 2 ^ leastExponent := mul_nonneg hq unit_pos.le
  obtain ⟨hhigh, hlow⟩ := spacingDoublings_spec hu
  rw [hcode]
  generalize spacingDoublings (q * 2 ^ leastExponent) = k at hhigh hlow
  have hpow : (0 : ℚ) < 2 ^ k := by positivity
  have hnearest := isNearest_nearestEven (k := k) ((div_lt_iff₀ hpow).mpr hhigh)
    (hlow.imp_right (le_div_iff₀ hpow).mpr) (div_nonneg hu hpow.le)
  rwa [div_mul_cancel₀ _ hpow.ne', mul_div_cancel_right₀ _ unit_pos.ne'] at hnearest

theorem nearestCode_eq_iff {q : ℚ} (hq : 0 ≤ q) {code : ℕ} :
    nearestCode q = code ↔ IsNearest q code :=
  ⟨fun h ↦ h ▸ isNearest_nearestCode hq, fun h ↦ (isNearest_nearestCode hq).unique h⟩

/-! ## Values are left as they are -/

theorem isNearest_codeValue (code : ℕ) : IsNearest (codeValue code) code := by
  refine ⟨.inl ?_, fun before hbefore ↦ .inl ?_⟩
  · have := codeValue_strictMono (Nat.lt_succ_self code)
    linarith
  · have := codeValue_strictMono (by omega : before < code)
    linarith

theorem nearestCode_codeValue (code : ℕ) : nearestCode (codeValue code) = code :=
  (nearestCode_eq_iff (codeValue_nonneg code)).mpr (isNearest_codeValue code)

/-! ## No value is nearer -/

theorem IsNearest.abs_sub_le {q : ℚ} {code : ℕ} (h : IsNearest q code) (other : ℕ) :
    |codeValue code - q| ≤ |codeValue other - q| := by
  rcases lt_trichotomy other code with hlt | rfl | hgt
  · obtain ⟨before, rfl⟩ := Nat.exists_eq_succ_of_ne_zero (by omega : code ≠ 0)
    have hother := codeValue_strictMono.monotone (Nat.lt_succ_iff.mp hlt)
    have hcode := codeValue_strictMono hlt
    have hhalf : codeValue before + codeValue (before + 1) ≤ 2 * q := by
      rcases h.below before rfl with hbelow | ⟨hbelow, -⟩ <;> linarith
    have hq : codeValue other ≤ q := by linarith
    rw [abs_of_nonpos (sub_nonpos.mpr hq), abs_le]
    constructor <;> linarith
  · exact le_rfl
  · have hother := codeValue_strictMono.monotone (Nat.succ_le_of_lt hgt)
    have hcode := codeValue_strictMono hgt
    have hhalf : 2 * q ≤ codeValue code + codeValue (code + 1) := by
      rcases h.above with habove | ⟨habove, -⟩ <;> linarith
    have hq : q ≤ codeValue other := by
      have : codeValue (code + 1) ≤ codeValue other := hother
      linarith
    rw [abs_of_nonneg (sub_nonneg.mpr hq), abs_le]
    constructor <;> linarith

end PocketCalculator
