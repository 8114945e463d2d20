import PocketCalculator.Text.Basic

/-!
# Thousands separators

For reading, the digits before the point are divided into groups of three by commas, counted from
the point. The sign and the digits after the point stay as they are.
-/

namespace PocketCalculator

/-- Reversed digits with a comma after every third, except at the end. -/
def groupReversed : Text → Text
  | a :: b :: c :: d :: rest => a :: b :: c :: ',' :: groupReversed (d :: rest)
  | digits => digits

/-- Digits in groups of three, counted from the right. -/
def groupDigits (digits : Text) : Text :=
  (groupReversed digits.reverse).reverse

/-- The text of a number without a sign, its digits before the point in groups. -/
def groupUnsigned (text : Text) : Text :=
  groupDigits (text.takeWhile (· ≠ '.')) ++ text.dropWhile (· ≠ '.')

/-- The text of a number, its digits before the point in groups. -/
def groupNumber : Text → Text
  | '-' :: unsigned => '-' :: groupUnsigned unsigned
  | text => groupUnsigned text

theorem filter_eq_self_of_comma_notMem {text : Text} (h : ',' ∉ text) :
    text.filter (· ≠ ',') = text :=
  List.filter_eq_self.mpr fun c hc ↦ decide_eq_true fun hcomma : c = ',' ↦ h (hcomma ▸ hc)

theorem filter_groupReversed {digits : Text} (h : ',' ∉ digits) :
    (groupReversed digits).filter (· ≠ ',') = digits := by
  fun_induction groupReversed digits with
  | case1 a b c d rest ih =>
    simp only [List.mem_cons, not_or] at h
    simpa [Ne.symm h.1, Ne.symm h.2.1, Ne.symm h.2.2.1] using ih (by simp [h.2.2.2])
  | case2 digits _ => exact filter_eq_self_of_comma_notMem h

end PocketCalculator
