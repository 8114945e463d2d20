import Mathlib.Algebra.Order.Field.Basic
import Mathlib.Data.List.TakeWhile
import Mathlib.Data.Rat.Floor
import Mathlib.Tactic.FieldSimp
import Mathlib.Tactic.Linarith
import Mathlib.Tactic.NormNum
import Mathlib.Tactic.Positivity
import Mathlib.Tactic.Ring
import PocketCalculator.Decimal.Numeral
import PocketCalculator.Decimal.Text

/-!
# Decimals in positional notation

A decimal is written with digits, at least one, and perhaps a point and more digits after it
(`IsPositional`), whatever its exponent. What is read from such a text is in general another
decimal, with an exponent that is not positive, but its value is the same
(`readDecimal?_toText`).
-/

namespace PocketCalculator

/-! ## Powers of ten -/

theorem tenPow_eq (n : ℕ) : (tenPow n : ℚ) = 10 ^ n := by
  rw [tenPow, Nat.pow_eq, Nat.cast_pow, Nat.cast_ofNat]

theorem tenToThe_eq (n : ℤ) : tenToThe n = (10 : ℚ) ^ n := by
  cases n with
  | ofNat n => exact (tenPow_eq n).trans (zpow_natCast 10 n).symm
  | negSucc n => rw [tenToThe, tenPow_eq, zpow_negSucc, one_div]

theorem Decimal.toRat_eq (d : Decimal) : d.toRat = d.coefficient * (10 : ℚ) ^ d.exponent := by
  rw [toRat, tenToThe_eq]

theorem Decimal.toRat_nonneg (d : Decimal) : 0 ≤ d.toRat := by
  rw [d.toRat_eq]
  exact mul_nonneg (Nat.cast_nonneg _) (zpow_nonneg (by norm_num) _)

/-! ## Texts in positional notation -/

/-- Digits, at least one, and perhaps a point with more digits after it. -/
inductive IsPositional : Text → Prop
  | whole {digits : Text} (hne : digits ≠ []) (h : ∀ c ∈ digits, c.isDigit = true) :
      IsPositional digits
  | pointed {digits fraction : Text} (hne : digits ≠ []) (h : ∀ c ∈ digits, c.isDigit = true)
      (hfraction : ∀ c ∈ fraction, c.isDigit = true) : IsPositional (digits ++ '.' :: fraction)

theorem IsPositional.exists_cons {text : Text} (h : IsPositional text) :
    ∃ c rest, text = c :: rest ∧ c.isDigit = true := by
  cases h with
  | whole hne h =>
    obtain ⟨c, rest, rfl⟩ := List.exists_cons_of_ne_nil hne
    exact ⟨c, rest, rfl, h c List.mem_cons_self⟩
  | pointed hne h _ =>
    obtain ⟨c, rest, rfl⟩ := List.exists_cons_of_ne_nil hne
    exact ⟨c, _, rfl, h c List.mem_cons_self⟩

theorem IsPositional.ne_nil {text : Text} (h : IsPositional text) : text ≠ [] := by
  obtain ⟨c, rest, rfl, -⟩ := h.exists_cons
  exact List.cons_ne_nil c rest

/-! ## Writing -/

theorem isDigit_of_mem_replicate (n : ℕ) : ∀ c ∈ List.replicate n '0', c.isDigit = true := by
  intro c hc
  rw [List.eq_of_mem_replicate hc]
  rfl

theorem isDigit_of_mem_toDigits (n : ℕ) : ∀ c ∈ Nat.toDigits 10 n, c.isDigit = true := fun _ hc ↦
  Nat.isDigit_of_mem_toDigits (by decide) le_rfl hc

/-- Digits with zeros in front, as many as a point before the last `places` of them needs. -/
theorem Decimal.pointed_eq (digits : Text) (places : ℕ) (hdigits : ∀ c ∈ digits, c.isDigit = true) :
    ∃ whole fraction : Text, pointed digits places = whole ++ '.' :: fraction ∧
      whole ++ fraction = List.replicate (places + 1 - digits.length) '0' ++ digits ∧
      whole ≠ [] ∧ fraction.length = places ∧
      (∀ c ∈ whole, c.isDigit = true) ∧ ∀ c ∈ fraction, c.isDigit = true := by
  have hall : ∀ c ∈ List.replicate (places + 1 - digits.length) '0' ++ digits,
      c.isDigit = true :=
    List.forall_mem_append.mpr ⟨isDigit_of_mem_replicate _, hdigits⟩
  have hlength : places + 1 ≤
      (List.replicate (places + 1 - digits.length) '0' ++ digits).length := by
    rw [List.length_append, List.length_replicate]
    omega
  rw [pointed]
  generalize List.replicate (places + 1 - digits.length) '0' ++ digits = padded at hall hlength
  refine ⟨padded.take (padded.length - places), padded.drop (padded.length - places), rfl,
    List.take_append_drop _ _, ?_, ?_, fun c hc ↦ hall c (List.mem_of_mem_take hc),
    fun c hc ↦ hall c (List.mem_of_mem_drop hc)⟩
  · rw [Ne, ← List.length_eq_zero_iff, List.length_take]
    omega
  · rw [List.length_drop]
    omega

theorem Decimal.toText_negSucc (coefficient n : ℕ) :
    (⟨coefficient, .negSucc n⟩ : Decimal).toText = pointed (Nat.toDigits 10 coefficient) (n + 1) :=
  rfl

theorem Decimal.isPositional_toText (d : Decimal) : IsPositional d.toText := by
  obtain ⟨coefficient, exponent⟩ := d
  have hdigits := isDigit_of_mem_toDigits coefficient
  cases exponent with
  | ofNat n =>
    exact .whole (List.append_ne_nil_of_left_ne_nil Nat.toDigits_ne_nil _)
      (List.forall_mem_append.mpr ⟨hdigits, isDigit_of_mem_replicate n⟩)
  | negSucc n =>
    obtain ⟨whole, fraction, htext, -, hne, -, hwhole, hfraction⟩ := pointed_eq _ (n + 1) hdigits
    rw [toText_negSucc, htext]
    exact .pointed hne hwhole hfraction

/-! ## Reading -/

theorem takeWhile_isDigit_append {digits rest : Text} (h : ∀ c ∈ digits, c.isDigit = true) :
    (digits ++ '.' :: rest).takeWhile Char.isDigit = digits := by
  rw [List.takeWhile_append_of_pos h]
  exact List.append_nil digits

theorem dropWhile_isDigit_append {digits rest : Text} (h : ∀ c ∈ digits, c.isDigit = true) :
    (digits ++ '.' :: rest).dropWhile Char.isDigit = '.' :: rest :=
  List.dropWhile_append_of_pos h

theorem readDecimal?_whole {digits : Text} (hne : digits ≠ [])
    (h : ∀ c ∈ digits, c.isDigit = true) :
    readDecimal? digits = some ⟨digitsValue digits, 0⟩ := by
  have hempty : digits.isEmpty = false := List.isEmpty_eq_false_iff.mpr hne
  have hnothing : takeFraction [] = ([], []) := rfl
  rw [readDecimal?, List.takeWhile_eq_self_iff.mpr h, List.dropWhile_eq_nil_iff.mpr h, hnothing]
  simp [hempty, readExponent?]

theorem readDecimal?_pointed {digits fraction : Text} (hne : digits ≠ [])
    (h : ∀ c ∈ digits, c.isDigit = true) (hfraction : ∀ c ∈ fraction, c.isDigit = true) :
    readDecimal? (digits ++ '.' :: fraction) =
      some ⟨digitsValue (digits ++ fraction), -fraction.length⟩ := by
  have hempty : digits.isEmpty = false := List.isEmpty_eq_false_iff.mpr hne
  rw [readDecimal?, takeWhile_isDigit_append h, dropWhile_isDigit_append h, takeFraction_point,
    List.takeWhile_eq_self_iff.mpr hfraction, List.dropWhile_eq_nil_iff.mpr hfraction]
  simp [hempty, readExponent?]

theorem IsPositional.exists_readDecimal? {text : Text} (h : IsPositional text) :
    ∃ d, readDecimal? text = some d ∧ d.exponent ≤ 0 := by
  cases h with
  | whole hne h => exact ⟨_, readDecimal?_whole hne h, le_rfl⟩
  | pointed hne h hfraction =>
    exact ⟨_, readDecimal?_pointed hne h hfraction, neg_nonpos.mpr (Int.natCast_nonneg _)⟩

/-- **The text of a decimal** is read as a decimal of the same value. -/
theorem Decimal.exists_readDecimal?_toText (d : Decimal) :
    ∃ d', readDecimal? d.toText = some d' ∧ d'.exponent ≤ 0 ∧ d'.toRat = d.toRat := by
  obtain ⟨coefficient, exponent⟩ := d
  have hdigits := isDigit_of_mem_toDigits coefficient
  cases exponent with
  | ofNat n =>
    have hread := readDecimal?_whole
      (List.append_ne_nil_of_left_ne_nil Nat.toDigits_ne_nil (List.replicate n '0'))
      (List.forall_mem_append.mpr ⟨hdigits, isDigit_of_mem_replicate n⟩)
    refine ⟨_, hread, le_rfl, ?_⟩
    rw [digitsValue, Nat.ofDigitChars_append, Nat.ofDigitChars_replicate_zero,
      Nat.ofDigitChars_ten_toDigits, toRat_eq, toRat_eq, Nat.cast_mul, Nat.cast_pow,
      Nat.cast_ofNat, zpow_zero, mul_one, mul_comm]
    exact congrArg ((coefficient : ℚ) * ·) (zpow_natCast (10 : ℚ) n).symm
  | negSucc n =>
    obtain ⟨whole, fraction, htext, happend, hne, hlength, hwhole, hfraction⟩ :=
      pointed_eq _ (n + 1) hdigits
    rw [toText_negSucc, htext]
    refine ⟨_, readDecimal?_pointed hne hwhole hfraction,
      neg_nonpos.mpr (Int.natCast_nonneg _), ?_⟩
    rw [hlength, happend, digitsValue, Nat.ofDigitChars_append, Nat.ofDigitChars_replicate_zero,
      Nat.mul_zero, Nat.ofDigitChars_ten_toDigits, Int.negSucc_eq, Nat.cast_succ]

/-! ## Numerals -/

section
variable {c : Char} (hc : c.isDigit = true) (rest : Text)

include hc

theorem takeSign_cons : takeSign (c :: rest) = (false, c :: rest) := by
  have hminus : c ≠ '-' := fun heq ↦ absurd (heq ▸ hc) (by decide)
  have hplus : c ≠ '+' := fun heq ↦ absurd (heq ▸ hc) (by decide)
  rw [takeSign]
  · exact fun rest' heq ↦ hminus (List.cons.inj heq).1
  · exact fun rest' heq ↦ hplus (List.cons.inj heq).1

/-- No word starts with a digit, which is the same in either case. -/
theorem readNumberWord?_cons (negative : Bool) : readNumberWord? negative (c :: rest) = none := by
  obtain ⟨-, hhigh⟩ := Char.isDigit_iff_toNat.mp hc
  have hlower : c.toLower = c := by
    refine dif_neg fun hupper ↦ ?_
    have hlow : 65 ≤ c.toNat := hupper.1
    have hnine : '9'.toNat = 57 := rfl
    omega
  have hi : c ≠ 'i' := fun heq ↦ absurd (heq ▸ hc) (by decide)
  have hn : c ≠ 'n' := fun heq ↦ absurd (heq ▸ hc) (by decide)
  simp [readNumberWord?, hlower, hi, hn]

end

theorem IsPositional.takeSign_eq {text : Text} (h : IsPositional text) :
    takeSign text = (false, text) := by
  obtain ⟨c, rest, rfl, hc⟩ := h.exists_cons
  exact takeSign_cons hc rest

theorem IsPositional.readNumberWord?_eq {text : Text} (h : IsPositional text) (negative : Bool) :
    readNumberWord? negative text = none := by
  obtain ⟨c, rest, rfl, hc⟩ := h.exists_cons
  exact readNumberWord?_cons hc rest negative

theorem IsPositional.readNumber?_eq {text : Text} (h : IsPositional text) (negative : Bool) :
    readNumber? (Binary64.signText negative ++ text) =
      (readDecimal? text).map (Decimal.round negative) := by
  have hword := h.readNumberWord?_eq negative
  have hsign : takeSign (Binary64.signText negative ++ text) = (negative, text) := by
    cases negative with
    | false => exact h.takeSign_eq
    | true => exact takeSign_minus text
  rw [readNumber?, hsign]
  change (readNumberWord? negative text <|> _) = _
  rw [hword]
  rfl

theorem IsPositional.readNumber?_ne_none {text : Text} (h : IsPositional text) (negative : Bool) :
    readNumber? (Binary64.signText negative ++ text) ≠ none := by
  obtain ⟨d, hd, -⟩ := h.exists_readDecimal?
  rw [h.readNumber?_eq, hd, Option.map_some]
  exact Option.some_ne_none _

theorem readExponent?_cons {c : Char} (hc : c.isDigit = true ∨ c = '.') (rest : Text) :
    readExponent? (c :: rest) = none := by
  have hletter : c ≠ 'e' ∧ c ≠ 'E' := by
    constructor <;> rintro rfl <;> exact absurd hc (by decide)
  simp [readExponent?, hletter]

/-- A numeral of digits and points that starts with a digit is in positional notation. -/
theorem isPositional_of_readNumber? {c : Char} {rest : Text} (hc : c.isDigit = true)
    (hrest : ∀ d ∈ rest, d.isDigit = true ∨ d = '.') (h : readNumber? (c :: rest) ≠ none) :
    IsPositional (c :: rest) := by
  have hread : readDecimal? (c :: rest) ≠ none := by
    intro hnone
    rw [readNumber?, takeSign_cons hc] at h
    change (readNumberWord? false (c :: rest) <|> _) ≠ none at h
    rw [readNumberWord?_cons hc, hnone] at h
    exact h rfl
  have hwhole : (c :: rest).takeWhile Char.isDigit ≠ [] := by
    rw [List.takeWhile_cons_of_pos hc]
    exact List.cons_ne_nil _ _
  have hdigits : ∀ d ∈ (c :: rest).takeWhile Char.isDigit, d.isDigit = true := fun d hd ↦
    List.mem_takeWhile_imp hd
  have hchars : ∀ d ∈ (c :: rest).dropWhile Char.isDigit, d.isDigit = true ∨ d = '.' := by
    intro d hd
    rcases List.mem_cons.mp ((List.dropWhile_sublist _).subset hd) with rfl | hd
    · exact .inl hc
    · exact hrest d hd
  rw [readDecimal?] at hread
  rw [← List.takeWhile_append_dropWhile (p := Char.isDigit) (l := c :: rest)]
  generalize (c :: rest).takeWhile Char.isDigit = whole at *
  cases hafter : (c :: rest).dropWhile Char.isDigit with
  | nil =>
    rw [List.append_nil]
    exact .whole hwhole hdigits
  | cons point fraction =>
    have hpoint : ¬ point.isDigit = true := by
      have hhead := List.head?_dropWhile_not Char.isDigit (c :: rest)
      rw [hafter] at hhead
      simpa using hhead
    rw [hafter] at hchars hread
    obtain rfl := (hchars point List.mem_cons_self).resolve_left hpoint
    refine .pointed hwhole hdigits (List.dropWhile_eq_nil_iff.mp ?_)
    rw [takeFraction_point] at hread
    cases hexponent : fraction.dropWhile Char.isDigit with
    | nil => rfl
    | cons e exponent =>
      -- an exponent starts with a letter
      have he : e ∈ fraction := by
        refine (List.dropWhile_sublist Char.isDigit).subset ?_
        rw [hexponent]
        exact List.mem_cons_self
      have hnone := readExponent?_cons (hchars e (List.mem_cons_of_mem _ he)) exponent
      simp [hexponent, hnone] at hread

end PocketCalculator
