import PocketCalculator.Proofs.Expression.Conservation
import PocketCalculator.Proofs.Keypad.Typed

/-!
# The numbers of a typed expression

In a typed expression every number that is read is a numeral. A number that is read is a whole run
of digits and points, perhaps with a minus in front, and the runs of a typed expression are in
positional notation.
-/

namespace PocketCalculator

open Place

variable {p q : Place}

/-- The longest run of digits and points at the start of what is typed after an operator is a
number, if there is one. -/
theorem isPositional_takeWhile {text : Text} (hp : p.IsBetween) (h : p.after? text = some q)
    (hne : text.takeWhile isNumeralChar ≠ []) :
    IsPositional (text.takeWhile isNumeralChar) ∧
      ∃ r, Place.after? r (text.dropWhile isNumeralChar) = some q := by
  rw [← List.takeWhile_append_dropWhile (p := isNumeralChar) (l := text)] at h
  obtain ⟨r, hrun, hrest⟩ := after?_append_eq_some.mp h
  exact ⟨isPositional_of_after? hp hrun hne fun c hc ↦ List.mem_takeWhile_imp hc, r, hrest⟩

/-- **Numbers are numerals.** Every number that is read in a typed expression is a numeral, from
wherever no number is cut in two. -/
theorem readNumber?_ne_none_of_mem_scanFrom {operandNext : Bool} {text number : Text}
    (hp : p.IsBetween ∨ text.takeWhile isNumeralChar = []) (h : p.after? text = some q)
    (hmem : .number number ∈ scanFrom operandNext text) : readNumber? number ≠ none := by
  induction hlength : text.length using Nat.strong_induction_on
    generalizing p operandNext text with
  | _ length ih =>
    subst hlength
    cases text with
    | nil =>
      rw [scanFrom_nil] at hmem
      exact absurd hmem List.not_mem_nil
    | cons c rest =>
      by_cases hc : isNumeralChar c = true
      · have hrun : (c :: rest).takeWhile isNumeralChar = c :: rest.takeWhile isNumeralChar :=
          List.takeWhile_cons_of_pos hc
        have hafter : (c :: rest).dropWhile isNumeralChar = rest.dropWhile isNumeralChar :=
          List.dropWhile_cons_of_pos hc
        have hne : (c :: rest).takeWhile isNumeralChar ≠ [] := hrun ▸ List.cons_ne_nil _ _
        obtain ⟨hpositional, r, hr⟩ := isPositional_takeWhile (hp.resolve_right hne) h hne
        rw [hrun] at hpositional
        rw [hafter] at hr
        rw [scanFrom_number hc] at hmem
        rcases List.mem_cons.mp hmem with heq | hmem
        · cases heq
          exact hpositional.readNumber?_ne_none false
        · exact ih _ (Nat.lt_succ_of_le (length_dropWhile_le _ rest))
            (.inr (takeWhile_dropWhile_eq_nil _ rest)) hr hmem rfl
      · obtain ⟨r, hr, hrest⟩ := Option.bind_eq_some_iff.mp h
        obtain ⟨⟨op, rfl⟩, -, rfl⟩ :
            (∃ op : Operator, c = op.symbol) ∧ p ≠ symbol ∧ r = symbol := by
          rcases next?_eq_some hr with ⟨hdigit, -⟩ | ⟨rfl, -, -⟩ | hsymbol
          · exact absurd (isNumeralChar_of_isDigit hdigit) hc
          · exact absurd rfl hc
          · exact hsymbol
        by_cases hsign : op.symbol = '-' ∧ operandNext = true ∧ rest.takeWhile isNumeralChar ≠ []
        · obtain ⟨hminus, rfl, hne⟩ := hsign
          obtain ⟨hpositional, s, hs⟩ := isPositional_takeWhile (.inr rfl) hrest hne
          rw [hminus, scanFrom_sign hne] at hmem
          rcases List.mem_cons.mp hmem with heq | hmem
          · cases heq
            exact hpositional.readNumber?_ne_none true
          · exact ih _ (Nat.lt_succ_of_le (length_dropWhile_le _ rest))
              (.inr (takeWhile_dropWhile_eq_nil _ rest)) hs hmem rfl
        · rw [scanFrom_char (isNumeralChar_symbol op) (ofChar?_symbol op) fun hminus hnext ↦
            by_contra fun hne ↦ hsign ⟨hminus, hnext, hne⟩] at hmem
          rcases List.mem_cons.mp hmem with heq | hmem
          · cases heq
          · exact ih _ (Nat.lt_succ_self _) (.inl (.inr rfl)) hrest hmem rfl

theorem readNumber?_ne_none_of_after? {text : Text} (h : start.after? text = some q) :
    (∀ number, .number number ∈ scan text → readNumber? number ≠ none) ∧
      ∀ number, .number number ∈ postfixOrder (scan text) → readNumber? number ≠ none := by
  have hblanks : text.filter (!isBlank ·) = text := by
    rw [List.filter_eq_self]
    intro c hc
    rw [Bool.not_eq_true']
    rcases (isTyped_of_after? h).isNumeralChar_or_isSymbol c hc with hnumeral | hsymbol
    · exact isBlank_of_isNumeralChar hnumeral
    · obtain ⟨op, rfl⟩ := Operator.isSymbol_iff.mp hsymbol
      exact isBlank_symbol op
  have hscan : ∀ number, .number number ∈ scan text → readNumber? number ≠ none := by
    intro number hmem
    rw [scan, hblanks] at hmem
    exact readNumber?_ne_none_of_mem_scanFrom (.inl (.inl rfl)) h hmem
  exact ⟨hscan, fun number hmem ↦ hscan number (mem_of_mem_postfixOrder hmem)⟩

end PocketCalculator
