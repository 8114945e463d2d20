import PocketCalculator.Decimal.Basic

/-!
# Shortest decimals

A magnitude is written with as few digits as will be read back as the same magnitude, and among
the texts of that length with the one nearest to it.

## The construction

The decimals with exponent `j` form a grid, and the grid with the next smaller exponent contains
it. If any point of a grid is read back as the magnitude, then so is the last point at or below
the magnitude or the first at or above it, because all that lies between two values that are read
alike is read so too. The coarsest grid with such a point therefore has the fewest digits, and of
its two points the nearer is taken; of two equally near ones, the upper.

The search begins at a power of ten above the magnitude. It ends at the latest on the grid with
exponent `-1074`, where every magnitude is a point itself.
-/

namespace PocketCalculator.Magnitude

/-- Whether a decimal is read as this magnitude. -/
def isReadFrom (m : Magnitude) (d : Decimal) : Bool :=
  nearestCode d.toRat = m.code

/-- The point of the grid with exponent `j` that stands for the magnitude, if one is read back as
it: the nearer of the two around it, and the upper if both are equally near. -/
def gridPoint? (m : Magnitude) (j : Int) : Option Decimal :=
  let q := m.toRat / tenToThe j
  let below : Decimal := ⟨q.floor.toNat, j⟩
  let above : Decimal := ⟨q.ceil.toNat, j⟩
  if m.isReadFrom below && (!m.isReadFrom above || q - q.floor < q.ceil - q) then some below
  else if m.isReadFrom above then some above
  else none

/-- The grid on which every magnitude is a point: each is a multiple of `2 ^ -1074`, and that is a
multiple of `10 ^ -1074`. -/
def finestGrid : Int := -leastExponent

def exactDecimal (m : Magnitude) : Decimal :=
  ⟨(m.toRat / tenToThe finestGrid).floor.toNat, finestGrid⟩

/-- The exponent of a power of ten above the magnitude. -/
def firstGrid (m : Magnitude) : Nat :=
  (Nat.toDigits 10 m.toRat.floor.toNat).length

/-- The point on the coarsest of `grids` grids, the first of which has exponent `j`, that stands
for the magnitude. Without any such grid the magnitude itself is its decimal. -/
def shortestFrom (m : Magnitude) (j : Int) : (grids : Nat) → Decimal
  | 0 => m.exactDecimal
  | grids + 1 => (m.gridPoint? j).getD (m.shortestFrom (j - 1) grids)

/-- The shortest decimal that is read back as the magnitude. No comparison of terms should ever
run this search. -/
@[irreducible]
def shortest (m : Magnitude) : Decimal :=
  m.shortestFrom m.firstGrid (m.firstGrid + leastExponent)

theorem exponent_of_gridPoint? {m : Magnitude} {j : Int} {d : Decimal}
    (h : m.gridPoint? j = some d) : d.exponent = j := by
  simp only [gridPoint?] at h
  split at h
  · cases h; rfl
  · split at h
    · cases h; rfl
    · cases h

theorem isReadFrom_of_gridPoint? {m : Magnitude} {j : Int} {d : Decimal}
    (h : m.gridPoint? j = some d) : m.isReadFrom d = true := by
  simp only [gridPoint?] at h
  split at h
  · next hbelow =>
    cases h
    exact ((Bool.and_eq_true ..).mp hbelow).1
  · split at h
    · next habove =>
      cases h
      exact habove
    · cases h

end PocketCalculator.Magnitude
