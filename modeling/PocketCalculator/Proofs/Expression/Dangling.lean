import PocketCalculator.Calculation.Basic
import PocketCalculator.Proofs.Expression.Conservation
import PocketCalculator.Proofs.Expression.Stack

/-!
# Dangling operators

An operator takes two values from the stack and puts one back, and so does a parenthesis that is
never closed, although there is nothing that it computes. Nothing else takes values, and only
numbers put values there without taking any. The postfix order keeps all of these tokens
(`depth_postfixOrder`). So an expression has a value only if it has more numbers than operators and
unclosed parentheses, wherever these stand and however badly the parentheses match.

The converse fails: in `2+(3)(4)(` there are enough numbers, but the sum takes what the parenthesis
has left.
-/

namespace PocketCalculator

/-- Whether a token is an operator. A minus is one unless it is the sign of a number. -/
def Token.isOperator : Token → Bool
  | operator _ => true
  | _ => false

theorem countP_not_isNumber (tokens : List Token) :
    tokens.countP (!·.isNumber) =
      tokens.countP (·.isOperator) + tokens.count .openParen + tokens.count .closeParen := by
  induction tokens with
  | nil => rfl
  | cons token rest ih =>
    simp only [List.countP_cons, List.count_cons, ih]
    cases token <;> simp [Token.isNumber, Token.isOperator] <;> omega

theorem depth_postfixOrder (tokens : List Token) :
    depth (postfixOrder tokens) =
      tokens.countP (·.isNumber) - (tokens.countP (·.isOperator) + unclosed tokens : ℕ) := by
  rw [depth, countP_not_isNumber, countP_postfixOrder_of_not_paren rfl rfl,
    countP_postfixOrder_of_not_paren rfl rfl, count_openParen_postfixOrder,
    List.count_eq_zero.mpr (closeParen_notMem_postfixOrder tokens), Nat.add_zero]

theorem one_le_depth_of_postfixValue {tokens : List Token} (h : postfixValue tokens ≠ .nan) :
    1 ≤ depth tokens := by
  rw [postfixValue, postfixValueFrom_eq] at h
  cases hrun : runStack? [] tokens with
  | none =>
    rw [hrun] at h
    exact absurd rfl h
  | some stack =>
    have hlength := length_runStack? hrun
    have hne : stack ≠ [] := by
      rintro rfl
      rw [hrun] at h
      exact h rfl
    have hpos := List.length_pos_iff.mpr hne
    rw [List.length_nil] at hlength
    omega

/-- **Dangling operators.** If an expression that is not empty has a value, it has more numbers than
operators and parentheses that are never closed. -/
theorem operators_add_unclosed_lt_numbers {places : ℕ} {expression : Text} {value : Binary64}
    (hscan : scan expression ≠ []) (h : roundedValue? places expression = some value) :
    (scan expression).countP (·.isOperator) + unclosed (scan expression) <
      (scan expression).countP (·.isNumber) := by
  have hvalue : postfixValue (postfixOrder (scan expression)) ≠ .nan := by
    intro hnan
    have hnone : roundedValue? places expression = none := by
      rw [roundedValue?_eq_none_iff, tokensValue, if_neg (by simpa using hscan), hnan]
      rfl
    rw [hnone] at h
    exact absurd h.symm (Option.some_ne_none value)
  have hdepth := one_le_depth_of_postfixValue hvalue
  rw [depth_postfixOrder] at hdepth
  omega

/-- Although its parentheses do not match, `1+2)(3)(4)(` has the value 3. -/
theorem operators_add_unclosed_lt_numbers_of_unmatched :
    let expression := ['1', '+', '2', ')', '(', '3', ')', '(', '4', ')', '(']
    scan expression ≠ [] ∧ roundedValue? 12 expression = some 3 ∧
      (scan expression).countP (·.isOperator) + unclosed (scan expression) <
        (scan expression).countP (·.isNumber) := by
  have hscan : scan ['1', '+', '2', ')', '(', '3', ')', '(', '4', ')', '('] ≠ [] := by
    decide +kernel
  have hvalue : roundedValue? 12 ['1', '+', '2', ')', '(', '3', ')', '(', '4', ')', '('] =
      some 3 := by
    decide +kernel
  exact ⟨hscan, hvalue, operators_add_unclosed_lt_numbers hscan hvalue⟩

end PocketCalculator
