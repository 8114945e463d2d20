import PocketCalculator.Calculation.Places
import PocketCalculator.Calculation.Grouping
import PocketCalculator.Expression.Value
import PocketCalculator.Decimal.Text

/-!
# Calculations

A calculation takes the text of an expression to a result: its tokens are put into postfix order,
the value of the sequence is rounded to a number of decimal places, and the text of the rounded
value is shown.

A value that is not finite is not shown. Whether it comes from a text that is no numeral, from an
operator without operands, from a division by zero or from an overflow, a single word stands for
it.
-/

namespace PocketCalculator

/-- Requests for a number of decimal places are below this. -/
def placesBound : Nat := 4294967296

/-- How results are computed and shown. -/
structure Options where
  /-- The number of decimal places to which a result is rounded. -/
  places : Nat := 12
  /-- Whether the digits before the point are shown in groups of three. -/
  grouping : Bool := true
deriving DecidableEq

/-- What is shown in place of a value that there is not. -/
def errorText : Text := ['E', 'r', 'r', 'o', 'r']

/-! ## Values -/

/-- The value of an expression rounded to a number of decimal places, if it has one. -/
def roundedValue? (places : Nat) (expression : Text) : Option Binary64 :=
  let value := tokensValue (scan expression)
  if value.isFinite then some (value.roundToPlaces places) else none

theorem roundedValue?_eq_none_iff {places : Nat} {expression : Text} :
    roundedValue? places expression = none ↔ (tokensValue (scan expression)).isFinite = false := by
  simp [roundedValue?]

/-! ## Results -/

/-- An expression with its value. -/
structure Calculation where
  /-- The expression, without blanks at its ends. -/
  expression : Text
  /-- Its value, if it has one. -/
  value : Option Binary64
  /-- Whether the value is shown in groups. -/
  grouping : Bool
deriving DecidableEq

namespace Calculation

/-- The text of the value, from which it can be read back and calculated with. -/
def plain? (calculation : Calculation) : Option Text :=
  calculation.value.map Binary64.toText

def display (calculation : Calculation) : Text :=
  match calculation.plain? with
  | some plain => if calculation.grouping then groupNumber plain else plain
  | none => errorText

end Calculation

def calculate (options : Options) (expression : Text) : Calculation where
  expression := trim expression
  value := roundedValue? options.places (trim expression)
  grouping := options.grouping

end PocketCalculator
