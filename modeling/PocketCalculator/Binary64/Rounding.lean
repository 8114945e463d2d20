import PocketCalculator.Binary64.Basic

/-!
# Rounding to binary64

Every operation on binary64 numbers is the exact rational operation followed by one rounding, and
every decimal numeral is its exact rational value rounded once. This module is that rounding: to
the nearest number, and to the one with the even code when two are equally near.

## The construction

Measured in units of the least magnitude, a value with at most 53 bits before the point is rounded
to a whole number of units. Each bit more doubles the spacing of the magnitudes around the value,
and the value is rounded to a multiple of that spacing. With `k` doublings and the multiple `n`,
the code is `k * 2 ^ 52 + n`: a multiple that reaches `2 ^ 53` is the first magnitude of the next
spacing, whose code this is as well, so nothing has to be done about a carry. A code that is no
code of a magnitude is an overflow, and the result is infinite.
-/

namespace PocketCalculator

/-- The whole number nearest to a rational that is not negative; a half goes to the even one. -/
def nearestEven (q : Rat) : Nat :=
  let below := q.floor.toNat
  let excess := q - below
  if excess < 1 / 2 then below
  else if 1 / 2 < excess then below + 1
  else below + below % 2

/-- How often the spacing of magnitudes has doubled around a value, given in units. -/
def spacingDoublings (units : Rat) : Nat :=
  units.floor.toNat.log2 - fractionBits

/-- The code of the magnitude nearest to a rational that is not negative. Past the largest
magnitude the codes go on as if there were no end. -/
def nearestCode (q : Rat) : Nat :=
  let units := q * twoPow leastExponent
  let k := spacingDoublings units
  k * twoPow fractionBits + nearestEven (units / twoPow k)

namespace Binary64

/-- The number of a sign that is nearest to an absolute value. -/
def round (negative : Bool) (q : Rat) : Binary64 :=
  if h : nearestCode q < infinityCode then finite negative ⟨nearestCode q, h⟩
  else infinite negative

def ofRat (q : Rat) : Binary64 :=
  if q < 0 then round true (-q) else round false q

instance (n : Nat) : OfNat Binary64 n :=
  ⟨ofRat n⟩

theorem round_of_lt {q : Rat} (h : nearestCode q < infinityCode) (negative : Bool) :
    round negative q = finite negative ⟨nearestCode q, h⟩ :=
  dif_pos h

theorem round_of_le {q : Rat} (h : infinityCode ≤ nearestCode q) (negative : Bool) :
    round negative q = infinite negative :=
  dif_neg (Nat.not_lt.mpr h)

theorem isFinite_round {negative : Bool} {q : Rat} :
    (round negative q).isFinite = true ↔ nearestCode q < infinityCode := by
  unfold round
  split <;> simp [*]

end Binary64

end PocketCalculator
