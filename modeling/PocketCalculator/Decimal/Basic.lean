import PocketCalculator.Text.Basic
import PocketCalculator.Binary64.Rounding

/-!
# Decimal numbers

A `Decimal` is a whole number of units of some power of ten, without a sign. It is what the digits
of a numeral denote before anything is rounded, and what the digits of a result are chosen as.
-/

namespace PocketCalculator

def tenPow (n : Nat) : Nat :=
  Nat.pow 10 n

def tenToThe : Int → Rat
  | .ofNat n => tenPow n
  | .negSucc n => 1 / tenPow (n + 1)

/-- The number `coefficient * 10 ^ exponent`. -/
structure Decimal where
  /-- How many units. -/
  coefficient : Nat
  /-- The power of ten that is the unit. -/
  exponent : Int
deriving DecidableEq

namespace Decimal

def toRat (d : Decimal) : Rat :=
  d.coefficient * tenToThe d.exponent

/-! ## Rounding to binary64 -/

/-- Beyond this many places to the left of the point every number other than zero rounds to
infinity, and beyond as many to the right every number rounds to zero. -/
def placeLimit : Int := 400

/-- The binary64 number of a sign that is nearest to a decimal. A decimal whose magnitude alone
decides the result is not multiplied out: a coefficient of `b + 1` bits is at least one and less
than `10 ^ (b + 1)`. -/
def round (negative : Bool) (d : Decimal) : Binary64 :=
  if d.coefficient = 0 then .zero negative
  else if placeLimit < d.exponent then .infinite negative
  else if d.exponent + d.coefficient.log2 + 1 < -placeLimit then .zero negative
  else .round negative d.toRat

/-! ## Positional notation -/

/-- Digits with a point before the last `places` of them and at least one digit before it. -/
def pointed (digits : Text) (places : Nat) : Text :=
  let padded := List.replicate (places + 1 - digits.length) '0' ++ digits
  let whole := padded.length - places
  padded.take whole ++ '.' :: padded.drop whole

/-- A decimal written out with all its zeros and without an exponent. -/
def toText (d : Decimal) : Text :=
  let digits := Nat.toDigits 10 d.coefficient
  match d.exponent with
  | .ofNat n => digits ++ List.replicate n '0'
  | .negSucc n => pointed digits (n + 1)

end Decimal

end PocketCalculator
