import PocketCalculator.Proofs.Expression.Lossless
import PocketCalculator.Proofs.Keypad.WellFormed

/-!
# What the keypad shows is what it evaluates

An expression is evaluated by its tokens, and a character that means nothing is passed over. As long
as an expression consists of digits, points and operators, nothing in it is passed over, and what is
shown is what is evaluated.

There is one way for other characters to get into an expression. The number at the end may have so
many digits that it is read as an infinity. Divided by a hundred it is an infinity again, of which
nobody asks whether it is finite, and its text is put into the expression: from then on `inf` is
shown and passed over. This is the only way, so the expressions of a session consist of digits,
points and operators exactly if no infinity is divided in it (`forall_shown_iff`).
-/

namespace PocketCalculator

open Place
open Binary64 (signText)

/-! ## Dividing an infinity -/

/-- Whether a number is divided by a hundred in a session that is read as an infinity. -/
def DividesInfinity (places : ℕ) (keys : List Key) : Prop :=
  ∃ before after, keys = before ++ .percent :: after ∧
    EndsInInfinity (Keypad.pressAll places {} before).expression

theorem infinite_div_hundred (negative : Bool) :
    Binary64.infinite negative / 100 = .infinite negative := by
  cases negative <;> decide +kernel

theorem exists_expression_press_percent (places : ℕ) {keypad : Keypad}
    (h : EndsInInfinity keypad.expression) :
    ∃ before negative, (keypad.press places .percent).expression =
      before ++ (signText negative ++ ['i', 'n', 'f']) := by
  obtain ⟨before, number, negative, hnumber, hvalue⟩ := h
  refine ⟨before, negative, ?_⟩
  have hpercent : Keypad.takePercent? keypad.expression =
      some (before ++ (signText negative ++ ['i', 'n', 'f'])) := by
    rw [Keypad.takePercent?, hnumber]
    dsimp only
    rw [hvalue, Option.map_some, infinite_div_hundred]
    rfl
  rw [Keypad.press, hpercent]

theorem mem_expression_press_percent (places : ℕ) {keypad : Keypad}
    (h : EndsInInfinity keypad.expression) :
    'i' ∈ (keypad.press places .percent).expression := by
  obtain ⟨before, negative, heq⟩ := exists_expression_press_percent places h
  rw [heq]
  exact List.mem_append_right _ (List.mem_append_right _ List.mem_cons_self)

/-! ## Characters that are shown -/

theorem isDigit_of_digit_mem {labels : List Text} {keys : List Key}
    (hkeys : labels.map Key.ofLabel? = keys.map some) {c : Char} (hc : .digit c ∈ keys) :
    c.isDigit = true := by
  have hmem : some (.digit c) ∈ labels.map Key.ofLabel? := by
    rw [hkeys]
    exact List.mem_map_of_mem hc
  obtain ⟨label, -, hlabel⟩ := List.mem_map.mp hmem
  exact Key.isDigit_of_ofLabel? hlabel

theorem canBeTyped_of_not_dividesInfinity {places : ℕ} {labels : List Text} {keys : List Key}
    (hkeys : labels.map Key.ofLabel? = keys.map some) (h : ¬ DividesInfinity places keys)
    {pressed : List Key} (hpressed : pressed <+: keys) :
    CanBeTyped (Keypad.pressAll places {} pressed).expression := by
  obtain ⟨rest, rfl⟩ := hpressed
  have hstart : CanBeTyped ({} : Keypad).expression := ⟨start, rfl⟩
  refine hstart.pressAll (fun c hc ↦ ?_) fun before after heq hinfinity ↦ ?_
  · exact isDigit_of_digit_mem hkeys (List.mem_append_left rest hc)
  · refine h ⟨before, after ++ rest, ?_, hinfinity⟩
    rw [heq, List.append_assoc, List.cons_append]

/-- If an infinity is divided, then a letter is shown right after that. -/
theorem exists_letter_of_dividesInfinity {places : ℕ} {keys : List Key}
    (h : DividesInfinity places keys) :
    ∃ pressed, pressed <+: keys ∧ 'i' ∈ (Keypad.pressAll places {} pressed).expression := by
  obtain ⟨before, after, rfl, hinfinity⟩ := h
  refine ⟨before ++ [.percent], ⟨after, by rw [List.append_assoc]; rfl⟩, ?_⟩
  rw [Keypad.pressAll_append]
  exact mem_expression_press_percent places hinfinity

theorem isMeaningful_of_shown {c : Char}
    (h : isNumeralChar c = true ∨ Operator.isSymbol c = true) : isMeaningful c = true := by
  rcases h with hnumeral | hsymbol
  · exact isMeaningful_of_isNumeralChar hnumeral
  · obtain ⟨op, rfl⟩ := Operator.isSymbol_iff.mp hsymbol
    exact isMeaningful_symbol op

/-- **What is shown is evaluated.** Whatever keys are pressed by their labels, the expression
consists of digits, points and operators after each of them exactly if no number is ever divided by
a hundred that is read as an infinity. The same condition decides whether the tokens of the
expression are always all of the expression. -/
theorem forall_shown_iff (places : ℕ) {labels : List Text} {keys : List Key}
    (hkeys : labels.map Key.ofLabel? = keys.map some) :
    ((∀ pressed, pressed <+: keys → ∀ c ∈ (Keypad.pressAll places {} pressed).expression,
        isNumeralChar c = true ∨ Operator.isSymbol c = true) ↔ ¬ DividesInfinity places keys) ∧
      ((∀ pressed, pressed <+: keys →
          (scan (Keypad.pressAll places {} pressed).expression).flatMap Token.text =
            (Keypad.pressAll places {} pressed).expression) ↔ ¬ DividesInfinity places keys) := by
  have hshown : ¬ DividesInfinity places keys → ∀ pressed, pressed <+: keys →
      ∀ c ∈ (Keypad.pressAll places {} pressed).expression,
        isNumeralChar c = true ∨ Operator.isSymbol c = true := by
    intro h pressed hpressed
    obtain ⟨p, hp⟩ := canBeTyped_of_not_dividesInfinity hkeys h hpressed
    exact (isTyped_of_after? hp).isNumeralChar_or_isSymbol
  constructor
  · refine ⟨fun h hdivides ↦ ?_, hshown⟩
    obtain ⟨pressed, hpressed, hletter⟩ := exists_letter_of_dividesInfinity hdivides
    rcases h pressed hpressed 'i' hletter with hnumeral | hsymbol
    · exact absurd hnumeral (by decide)
    · exact absurd hsymbol (by decide)
  · refine ⟨fun h hdivides ↦ ?_, fun h pressed hpressed ↦ ?_⟩
    · obtain ⟨pressed, hpressed, hletter⟩ := exists_letter_of_dividesInfinity hdivides
      have hmeaningful := flatMap_text_scan_eq_iff.mp (h pressed hpressed) 'i' hletter
      exact absurd hmeaningful (by decide)
    · exact flatMap_text_scan_eq_iff.mpr fun c hc ↦
        isMeaningful_of_shown (hshown h pressed hpressed c hc)

/-- While fifteen is divided by a hundred, all that is shown is evaluated. -/
theorem shown_fifteen_percent :
    [['1'], ['5'], ['%']].map Key.ofLabel? = [Key.digit '1', .digit '5', .percent].map some ∧
      ∀ pressed, pressed <+: [.digit '1', .digit '5', .percent] →
        ∀ c ∈ (Keypad.pressAll 12 {} pressed).expression,
          isNumeralChar c = true ∨ Operator.isSymbol c = true := by
  have hkeys : [['1'], ['5'], ['%']].map Key.ofLabel? =
      [Key.digit '1', .digit '5', .percent].map some := by decide
  refine ⟨hkeys, (forall_shown_iff 12 hkeys).1.mpr ?_⟩
  rintro ⟨before, after, heq, rest, number, negative, hnumber, hvalue⟩
  obtain rfl : before = [.digit '1', .digit '5'] := by
    rcases before with _ | ⟨_, _ | ⟨_, _ | ⟨_, before⟩⟩⟩ <;> simp_all
  have hfifteen : trailingNumber? ['1', '5'] = some ([], ['1', '5']) := by decide
  cases hfifteen.symm.trans hnumber
  have hfinite : ∀ s, readNumber? ['1', '5'] ≠ some (.infinite s) := by decide +kernel
  exact hfinite negative hvalue

/-- A hundredth of `10 ^ 309 - 1` is shown as `inf`, and no token is read from that. -/
theorem exists_expression_with_letters :
    ∃ (labels : List Text) (keys : List Key), labels.map Key.ofLabel? = keys.map some ∧
      (Keypad.pressAll 12 {} keys).expression = ['i', 'n', 'f'] ∧
      ¬ (∀ c ∈ (Keypad.pressAll 12 {} keys).expression,
        isNumeralChar c = true ∨ Operator.isSymbol c = true) ∧
      scan (Keypad.pressAll 12 {} keys).expression = [] := by
  refine ⟨List.replicate 309 ['9'] ++ [['%']], List.replicate 309 (.digit '9') ++ [.percent],
    by decide +kernel, ?_⟩
  have hexpression : (Keypad.pressAll 12 {}
      (List.replicate 309 (.digit '9') ++ [.percent])).expression = ['i', 'n', 'f'] := by
    decide +kernel
  rw [hexpression]
  exact ⟨rfl, fun h ↦ absurd (h 'i' List.mem_cons_self) (by decide), by decide +kernel⟩

end PocketCalculator
