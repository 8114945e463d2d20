import PocketCalculator.Keypad.Basic
import PocketCalculator.Proofs.Calculation.Places
import PocketCalculator.Proofs.Decimal.ReadBack
import PocketCalculator.Proofs.Keypad.Numbers
import PocketCalculator.Proofs.Keypad.Trailing

/-!
# Well-formed expressions on the keypad

Whatever keys are pressed, the expression on the keypad stays one that can be typed from left to
right (`CanBeTyped`), and so it is made of operators, no two of them side by side, and of numbers
that are numerals (`isTyped_expression_pressAll`). There is one lemma for what each key does to the
expression, and the rest is induction on the keys.

Two keys put a number into the expression that was not typed. A result is finite, and its text can
be typed. A hundredth of the number at the end replaces that number. A minus in front of the number
is part of it and comes back with the hundredth, unless that is zero: then the minus is gone, and
the zero is glued to what is in front of it, which may be a number. That is why a digit has to be
allowed everywhere. The hundredth of an infinity is an infinity, which has no text in digits. So it
has to be excluded that the number at the end is read as one when it is divided.
-/

namespace PocketCalculator

open Place
open Binary64 (signText)

/-- Whether an expression can be typed from left to right. This is what every key preserves. -/
def CanBeTyped (expression : Text) : Prop :=
  ∃ p, start.after? expression = some p

/-! ## Single keys -/

theorem ne_symbol_of_getLast? {expression : Text} {p : Place}
    (h : start.after? expression = some p)
    (hlast : ∀ c, expression.getLast? = some c → Operator.isSymbol c = false) : p ≠ symbol := by
  rintro rfl
  rcases List.eq_nil_or_concat' expression with rfl | ⟨before, c, rfl⟩
  · exact Place.noConfusion (Option.some_inj.mp h)
  · obtain ⟨q, -, hc⟩ := after?_concat_eq_some.mp h
    have hsymbol := (isSymbol_iff_of_next? hc).mpr rfl
    rw [hlast c List.getLast?_concat] at hsymbol
    exact Bool.false_ne_true hsymbol

theorem startsNumber_iff {expression : Text} {p : Place}
    (h : start.after? expression = some p) :
    Keypad.startsNumber expression = true ↔ p.IsBetween := by
  rcases List.eq_nil_or_concat' expression with rfl | ⟨before, c, rfl⟩
  · exact iff_of_true rfl (.inl (Option.some_inj.mp h).symm)
  · obtain ⟨q, -, hc⟩ := after?_concat_eq_some.mp h
    rw [Keypad.startsNumber, List.getLast?_concat]
    rcases next?_eq_some hc with ⟨hdigit, rfl⟩ | ⟨rfl, -, rfl⟩ | ⟨⟨op, rfl⟩, -, rfl⟩
    · have hparen : c ≠ '(' := fun heq ↦ absurd (heq ▸ hdigit) (by decide)
      refine iff_of_false ?_ ?_
      · simp [hparen, isSymbol_eq_false_of_isDigit hdigit]
      · rintro (hplace | hplace) <;> cases q <;> cases hplace
    · refine iff_of_false (by decide) ?_
      rintro (hplace | hplace) <;> cases hplace
    · refine iff_of_true ?_ (.inr rfl)
      simp

section

variable {expression : Text} (h : CanBeTyped expression)

include h

theorem CanBeTyped.dropLast : CanBeTyped expression.dropLast := by
  obtain ⟨p, hp⟩ := h
  rcases List.eq_nil_or_concat' expression with rfl | ⟨before, c, rfl⟩
  · exact ⟨p, hp⟩
  · obtain ⟨q, hq, -⟩ := after?_concat_eq_some.mp hp
    exact ⟨q, by rwa [List.dropLast_concat]⟩

theorem CanBeTyped.digit {c : Char} (hc : c.isDigit = true) : CanBeTyped (expression ++ [c]) := by
  obtain ⟨p, hp⟩ := h
  exact ⟨p.afterDigit, after?_concat_eq_some.mpr ⟨p, hp, next?_digit hc⟩⟩

theorem CanBeTyped.typeOperator (op : Operator) :
    CanBeTyped (Keypad.typeOperator expression op) := by
  obtain ⟨p, hp⟩ := h
  rcases Keypad.typeOperator_cases expression op with
    ⟨before, c, rfl, hsymbol, heq⟩ | ⟨rfl, -, heq⟩ | ⟨hlast, -, heq⟩
  · obtain ⟨q, hq, hc⟩ := after?_concat_eq_some.mp hp
    have hplace : q ≠ symbol := ne_symbol_of_next? hc hsymbol
    rw [heq]
    exact ⟨symbol, after?_concat_eq_some.mpr ⟨q, hq, next?_symbol hplace op⟩⟩
  · rw [heq]
    exact ⟨p, hp⟩
  · have hplace : p ≠ symbol := ne_symbol_of_getLast? hp hlast
    rw [heq]
    exact ⟨symbol, after?_concat_eq_some.mpr ⟨p, hp, next?_symbol hplace op⟩⟩

theorem CanBeTyped.typeDot : CanBeTyped (Keypad.typeDot expression) := by
  obtain ⟨p, hp⟩ := h
  rw [Keypad.typeDot]
  split_ifs with hdot hstart
  · exact ⟨p, hp⟩
  · refine ⟨fraction, after?_append_eq_some.mpr ⟨p, hp, ?_⟩⟩
    rcases (startsNumber_iff hp).mp hstart with rfl | rfl <;> rfl
  · refine ⟨fraction, after?_append_eq_some.mpr ⟨p, hp, ?_⟩⟩
    rw [startsNumber_iff hp] at hstart
    cases p with
    | start => exact absurd (.inl rfl) hstart
    | symbol => exact absurd (.inr rfl) hstart
    | whole => rfl
    | fraction => exact absurd (dot_mem_trailingPartialNumber hp) hdot

end

theorem canBeTyped_toText {x : Binary64} (hx : x.isFinite = true) : CanBeTyped x.toText := by
  obtain ⟨negative, text, htext, heq⟩ := Binary64.exists_isPositional_toText hx
  rw [heq]
  refine exists_after?_of_takes ?_ htext
  cases negative with
  | true => exact fun hplace ↦ Place.noConfusion hplace
  | false => exact .inl rfl

theorem canBeTyped_evaluated (places : ℕ) (keypad : Keypad) :
    CanBeTyped (keypad.evaluated places).expression := by
  rw [Keypad.evaluated]
  cases hvalue : roundedValue? places keypad.expression with
  | none => exact ⟨start, rfl⟩
  | some value =>
    obtain ⟨hfinite, rfl⟩ := roundedValue?_eq_some_iff.mp hvalue
    exact canBeTyped_toText (isFinite_roundToPlaces hfinite places)

/-! ## Percent -/

/-- Whether the number at the end of an expression is read as an infinity. -/
def EndsInInfinity (expression : Text) : Prop :=
  ∃ before number negative, trailingNumber? expression = some (before, number) ∧
    readNumber? number = some (.infinite negative)

theorem hundred_eq_finite : ∃ n, n ≠ .zero ∧ (100 : Binary64) = .finite false n :=
  ⟨⟨nearestCode 100, by decide +kernel⟩, by decide +kernel, by decide +kernel⟩

/-- A hundredth of a finite number is rounded with the sign of the number. -/
theorem exists_finite_div_hundred (negative : Bool) (m : Magnitude) :
    ∃ q, Binary64.finite negative m / 100 = .round negative q := by
  obtain ⟨n, hn₀, hn⟩ := hundred_eq_finite
  exact ⟨_, by rw [hn, Binary64.div_finite hn₀, Bool.xor_false]⟩

/-- A hundredth of a finite number has the sign of the number, unless it is written as zero. -/
theorem toText_div_hundred (negative : Bool) (m : Magnitude) :
    (Binary64.finite negative m / 100).toText = ['0'] ∨
      ∃ text, IsPositional text ∧
        (Binary64.finite negative m / 100).toText = signText negative ++ text := by
  obtain ⟨hhundred, hhundred'⟩ : (100 : Binary64).isFinite = true ∧
      (100 : Binary64).toRat = (100 : ℕ) := Binary64.toRat_ofNat (by norm_num)
  have hfinite : (Binary64.finite negative m / 100).isFinite = true := by
    rw [Binary64.isFinite_div_iff rfl hhundred (by rw [hhundred']; norm_num), hhundred']
    refine Binary64.isFinite_ofRat_of_le_toRat (x := .finite negative m) rfl ?_
    rw [abs_div, Nat.abs_cast]
    exact div_le_self (abs_nonneg _) (by norm_num)
  obtain ⟨q, hq⟩ := exists_finite_div_hundred negative m
  rw [hq] at hfinite ⊢
  rw [Binary64.round_of_lt (Binary64.isFinite_round.mp hfinite)]
  generalize (⟨nearestCode q, _⟩ : Magnitude) = k
  by_cases hk : k = .zero
  · rw [hk]
    exact .inl (Binary64.toText_zero negative)
  · exact .inr ⟨_, k.shortest.isPositional_toText, Binary64.toText_finite hk negative⟩

theorem CanBeTyped.takePercent? {expression percent : Text} (h : CanBeTyped expression)
    (hinfinity : ¬ EndsInInfinity expression)
    (hpercent : Keypad.takePercent? expression = some percent) : CanBeTyped percent := by
  obtain ⟨p, hp⟩ := h
  obtain ⟨before, number, value, hnumber, hvalue, rfl⟩ := Keypad.takePercent?_eq_some hpercent
  obtain ⟨negative, run, s, rfl, hrun, hs, htakes⟩ := exists_of_trailingNumber? hp hnumber
  obtain ⟨m, rfl⟩ : ∃ m, value = .finite negative m := by
    obtain ⟨q, hq⟩ := hrun.exists_readNumber?
    have hround := Option.some_inj.mp (hvalue.symm.trans (hq negative))
    by_cases hcode : nearestCode q < infinityCode
    · exact ⟨_, hround.trans (Binary64.round_of_lt hcode negative)⟩
    · rw [hround, Binary64.round_of_le (not_lt.mp hcode)] at hvalue
      exact absurd ⟨before, _, negative, hnumber, hvalue⟩ hinfinity
  have hafter : ∃ q, s.after? (Binary64.finite negative m / 100).toText = some q := by
    rcases toText_div_hundred negative m with hzero | ⟨text, htext, heq⟩
    · rw [hzero]
      exact ⟨s.afterDigit, (after?_singleton _).trans (next?_digit rfl)⟩
    · rw [heq]
      exact exists_after?_of_takes htakes htext
  obtain ⟨q, hq⟩ := hafter
  exact ⟨q, after?_append_eq_some.mpr ⟨s, hs, hq⟩⟩

/-! ## Any keys -/

/-- **One key** leaves an expression that can be typed. -/
theorem CanBeTyped.press {places : ℕ} {keypad : Keypad} {key : Key}
    (h : CanBeTyped keypad.expression) (hdigit : ∀ c, key = .digit c → c.isDigit = true)
    (hpercent : key = .percent → ¬ EndsInInfinity keypad.expression) :
    CanBeTyped (keypad.press places key).expression := by
  cases key with
  | clear => exact ⟨start, rfl⟩
  | delete => exact h.dropLast
  | equals => exact canBeTyped_evaluated places keypad
  | dot => exact h.typeDot
  | operator op => exact h.typeOperator op
  | digit c => exact h.digit (hdigit c rfl)
  | percent =>
    rw [Keypad.press]
    cases hexpression : Keypad.takePercent? keypad.expression with
    | none => exact h
    | some expression => exact h.takePercent? (hpercent rfl) hexpression

/-- **Any keys** leave an expression that can be typed. -/
theorem CanBeTyped.pressAll {places : ℕ} {keypad : Keypad} {keys : List Key}
    (h : CanBeTyped keypad.expression) (hdigit : ∀ c, .digit c ∈ keys → c.isDigit = true)
    (hpercent : ∀ before after, keys = before ++ .percent :: after →
      ¬ EndsInInfinity (keypad.pressAll places before).expression) :
    CanBeTyped (keypad.pressAll places keys).expression := by
  induction keys generalizing keypad with
  | nil => exact h
  | cons key keys ih =>
    rw [Keypad.pressAll_cons]
    refine ih (h.press ?_ ?_) ?_ ?_
    · rintro c rfl
      exact hdigit c List.mem_cons_self
    · rintro rfl
      exact hpercent [] keys rfl
    · exact fun c hc ↦ hdigit c (List.mem_cons_of_mem key hc)
    · rintro before after rfl
      exact hpercent (key :: before) after rfl

/-- **Expressions stay well-formed.** Whatever keys are pressed by their labels, the expression is
typed after each of them, and every number that is read in it, or that its evaluation gets to, is a
numeral, provided that a number is never divided by a hundred that is read as an infinity. -/
theorem isTyped_expression_pressAll (places : ℕ) {labels : List Text} {keys : List Key}
    (hkeys : labels.map Key.ofLabel? = keys.map some)
    (hpercent : ∀ before after, keys = before ++ .percent :: after →
      ¬ EndsInInfinity (Keypad.pressAll places {} before).expression) :
    ∀ pressed, pressed <+: keys →
      IsTyped (Keypad.pressAll places {} pressed).expression ∧
        (∀ number, .number number ∈ scan (Keypad.pressAll places {} pressed).expression →
          readNumber? number ≠ none) ∧
        ∀ number,
          .number number ∈ postfixOrder (scan (Keypad.pressAll places {} pressed).expression) →
            readNumber? number ≠ none := by
  rintro pressed ⟨rest, rfl⟩
  have hdigit : ∀ c, .digit c ∈ pressed → c.isDigit = true := by
    intro c hc
    have hmem : some (.digit c) ∈ labels.map Key.ofLabel? := by
      rw [hkeys]
      exact List.mem_map_of_mem (List.mem_append_left rest hc)
    obtain ⟨label, -, hlabel⟩ := List.mem_map.mp hmem
    exact Key.isDigit_of_ofLabel? hlabel
  have hstart : CanBeTyped ({} : Keypad).expression := ⟨start, rfl⟩
  obtain ⟨p, hp⟩ := hstart.pressAll hdigit fun before after heq ↦
    hpercent before (after ++ rest) (by rw [heq, List.append_assoc, List.cons_append])
  exact ⟨isTyped_of_after? hp, readNumber?_ne_none_of_after? hp⟩

/-- A hundredth of fifteen is one of the things that can be typed. -/
theorem isTyped_expression_percent :
    IsTyped (Keypad.pressAll 12 {} [.digit '1', .digit '5', .percent]).expression := by
  have hkeys : [['1'], ['5'], ['%']].map Key.ofLabel? =
      [Key.digit '1', .digit '5', .percent].map some := by decide
  refine (isTyped_expression_pressAll 12 hkeys ?_ _ List.prefix_rfl).1
  rintro before after heq ⟨rest, number, negative, hnumber, hvalue⟩
  obtain rfl : before = [.digit '1', .digit '5'] := by
    rcases before with _ | ⟨_, _ | ⟨_, _ | ⟨_, before⟩⟩⟩ <;> simp_all
  have hfifteen : trailingNumber? ['1', '5'] = some ([], ['1', '5']) := by decide
  cases hfifteen.symm.trans hnumber
  have hfinite : ∀ s, readNumber? ['1', '5'] ≠ some (.infinite s) := by decide +kernel
  exact hfinite negative hvalue

end PocketCalculator
