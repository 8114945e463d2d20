/-!
# Binary64 numbers

The numbers of the IEEE 754 format binary64: 52 bits of fraction, 11 bits of exponent, a sign,
two infinities, and no distinction between one NaN and another.

## The representation

A finite number is a sign and a `Magnitude`. The magnitudes are numbered from zero in increasing
order, and the number of a magnitude is its `code`: the lower 52 bits of the code are the
fraction and the bits above them the exponent, exactly as the format stores them. So each number
has one representation, equality is equality of what is stored, and the next magnitude has the
next code.

Every magnitude is a whole multiple of the least one, `2 ^ -1074`. `Magnitude.units` is that
multiple and `Binary64.toRat` the value, an exact rational.
-/

namespace PocketCalculator

def twoPow (n : Nat) : Nat :=
  Nat.pow 2 n

theorem twoPow_pos (n : Nat) : 0 < twoPow n :=
  Nat.pow_pos (by decide)

def fractionBits : Nat := 52

/-- The least positive magnitude is `1 / twoPow leastExponent`. -/
def leastExponent : Nat := 1074

/-- One more than the largest code: the code that the format gives to infinity. -/
def infinityCode : Nat :=
  2047 * twoPow fractionBits

/-! ## Magnitudes -/

/-- The absolute value of a finite number. -/
structure Magnitude where
  /-- Its place in increasing order. -/
  code : Nat
  /-- There are finitely many. -/
  code_lt : code < infinityCode
deriving DecidableEq

namespace Magnitude

def zero : Magnitude :=
  ⟨0, Nat.mul_pos (by decide) (twoPow_pos _)⟩

/-- How often the spacing of magnitudes has doubled below this one. Two adjacent exponents, the
lowest two, share one spacing. -/
def doublings (m : Magnitude) : Nat :=
  m.code / twoPow fractionBits - 1

/-- The magnitude as a multiple of the least positive one. -/
def units (m : Magnitude) : Nat :=
  (m.code - m.doublings * twoPow fractionBits) * twoPow m.doublings

/-- The value of a magnitude. -/
def toRat (m : Magnitude) : Rat :=
  m.units / twoPow leastExponent

/-- The magnitudes are ordered by their codes. -/
instance : LE Magnitude :=
  ⟨fun m n ↦ m.code ≤ n.code⟩

instance (m n : Magnitude) : Decidable (m ≤ n) :=
  inferInstanceAs (Decidable (m.code ≤ n.code))

end Magnitude

/-! ## Numbers -/

inductive Binary64
  /-- A finite number: its sign, `true` for negative, and its magnitude. -/
  | finite (negative : Bool) (magnitude : Magnitude)
  /-- An infinity, with its sign. -/
  | infinite (negative : Bool)
  /-- No number: the result of an operation that has none. -/
  | nan
deriving DecidableEq

namespace Binary64

def zero (negative : Bool) : Binary64 :=
  finite negative .zero

def isFinite : Binary64 → Bool
  | finite _ _ => true
  | _ => false

def isZero : Binary64 → Bool
  | finite _ m => m = .zero
  | _ => false

/-- The value of a finite number; zero stands in for the others. -/
def toRat : Binary64 → Rat
  | finite true m => -m.toRat
  | finite false m => m.toRat
  | _ => 0

@[simp]
theorem isFinite_finite (s : Bool) (m : Magnitude) : (finite s m).isFinite = true := rfl

@[simp]
theorem isFinite_infinite (s : Bool) : (infinite s).isFinite = false := rfl

@[simp]
theorem isFinite_nan : nan.isFinite = false := rfl

theorem isFinite_iff {x : Binary64} : x.isFinite = true ↔ ∃ s m, x = finite s m := by
  cases x <;> simp

theorem isZero_iff {x : Binary64} : x.isZero = true ↔ ∃ s, x = zero s := by
  cases x <;> simp [isZero, zero]

/-! ## The stored form -/

/-- The number that 64 bits store, the sign bit first. -/
def ofBits (bits : Nat) : Binary64 :=
  let negative := decide (twoPow 63 ≤ bits)
  let code := bits % twoPow 63
  if h : code < infinityCode then finite negative ⟨code, h⟩
  else if code = infinityCode then infinite negative
  else nan

/-- The 64 bits that store a number; a NaN is stored as the quiet one without a payload. -/
def toBits : Binary64 → Nat
  | finite negative m => (if negative then twoPow 63 else 0) + m.code
  | infinite negative => (if negative then twoPow 63 else 0) + infinityCode
  | nan => infinityCode + twoPow 51

/-- What is stored is read back. -/
theorem ofBits_toBits (x : Binary64) : ofBits x.toBits = x := by
  have hcode : infinityCode + twoPow 51 < twoPow 63 := by decide
  have h63 : 0 < twoPow 63 := twoPow_pos _
  have h51 : 0 < twoPow 51 := twoPow_pos _
  cases x with
  | finite s m =>
    have hm := m.code_lt
    have hlt : m.code < twoPow 63 := by omega
    cases s <;> simp [toBits, ofBits, Nat.mod_eq_of_lt hlt, hm, hlt]
  | infinite s =>
    have hlt : infinityCode < twoPow 63 := by omega
    cases s <;> simp [toBits, ofBits, Nat.mod_eq_of_lt hlt, hlt]
  | nan =>
    have hne : ¬ infinityCode + twoPow 51 < infinityCode := by omega
    have hne' : infinityCode + twoPow 51 ≠ infinityCode := by omega
    simp [toBits, ofBits, Nat.mod_eq_of_lt hcode, hne, Nat.ne_of_gt h51]

end Binary64

end PocketCalculator
