import PocketCalculator.Binary64.Arithmetic

/-!
# Rounding to decimal places

A result is rounded half up to a number of decimal places before it is shown. The rounding is
itself done in binary64: the number is scaled by a power of ten, cut down to a whole number and
scaled back.

Before it is scaled, the number is raised by the distance from 1 to the next number. This makes
up for decimals like `1.005`, whose nearest number lies just below them.

Where the scaled number or the power of ten is no longer finite, the number has no decimals to
lose and is left as it is.
-/

namespace PocketCalculator.Binary64

/-- The distance from 1 to the next larger number, `2 ^ -52`. -/
def epsilon : Binary64 :=
  ofRat (1 / twoPow fractionBits)

/-- The largest exponent to which ten is raised. The power is infinite long before. -/
def maxPlaces : Nat := 2147483647

/-- The power of ten that moves the point by a number of places. -/
def placesFactor (places : Nat) : Binary64 :=
  pow 10 (min places maxPlaces)

/-- The whole number that a number is nearest to; a half goes up. -/
def roundHalfUp (x : Binary64) : Binary64 :=
  if ofRat (1 / 2) ≤ x - x.floor then x.floor + 1 else x.floor

/-- A zero of either sign as the positive zero, any other number as it is. -/
def clearZeroSign (x : Binary64) : Binary64 :=
  if x.isZero then zero false else x

/-- A number rounded half up to a number of decimal places. -/
def roundToPlaces (x : Binary64) (places : Nat) : Binary64 :=
  let factor := placesFactor places
  let scaled := (x + epsilon) * factor
  if scaled.isFinite && factor.isFinite then clearZeroSign (scaled.roundHalfUp / factor) else x

/-- Where scaling overflows, nothing is rounded. -/
theorem roundToPlaces_of_overflow {x : Binary64} {places : Nat}
    (h : ((x + epsilon) * placesFactor places).isFinite = false) : roundToPlaces x places = x := by
  simp [roundToPlaces, h]

theorem clearZeroSign_ne_negative_zero (x : Binary64) : clearZeroSign x ≠ zero true := by
  unfold clearZeroSign
  split
  · simp [zero]
  · rintro rfl
    simp [isZero, zero] at *

end PocketCalculator.Binary64
