import PocketCalculator.Text.Basic
import PocketCalculator.Binary64.Arithmetic

/-!
# Operators

The four operations of the calculator: how they are typed, how strongly they bind, and what they
do to two numbers.
-/

namespace PocketCalculator

inductive Operator
  | add
  | subtract
  | multiply
  | divide
deriving DecidableEq

namespace Operator

def symbol : Operator → Char
  | add => '+'
  | subtract => '-'
  | multiply => '*'
  | divide => '/'

def ofSymbol? (c : Char) : Option Operator :=
  if c = '+' then some add
  else if c = '-' then some subtract
  else if c = '*' then some multiply
  else if c = '/' then some divide
  else none

def isSymbol (c : Char) : Bool :=
  (ofSymbol? c).isSome

/-- How strongly an operator binds: products and quotients more than sums and differences. -/
def precedence : Operator → Nat
  | add | subtract => 1
  | multiply | divide => 2

/-- The result of an operator on its left and its right operand. Division by either zero has no
result, whatever is divided. -/
def apply (op : Operator) (a b : Binary64) : Binary64 :=
  match op with
  | add => a + b
  | subtract => a - b
  | multiply => a * b
  | divide => if b.isZero then .nan else a / b

@[simp]
theorem ofSymbol?_symbol (op : Operator) : ofSymbol? op.symbol = some op := by
  cases op <;> rfl

theorem ofSymbol?_eq_some_iff {c : Char} {op : Operator} :
    ofSymbol? c = some op ↔ c = op.symbol := by
  constructor
  · intro h
    unfold ofSymbol? at h
    repeat' split at h
    all_goals cases h
    all_goals assumption
  · rintro rfl
    exact ofSymbol?_symbol op

theorem isSymbol_iff {c : Char} : isSymbol c = true ↔ ∃ op : Operator, c = op.symbol := by
  simp [isSymbol, Option.isSome_iff_exists, ofSymbol?_eq_some_iff]

@[simp]
theorem isSymbol_symbol (op : Operator) : isSymbol op.symbol = true :=
  isSymbol_iff.mpr ⟨op, rfl⟩

@[simp]
theorem apply_nan_left (op : Operator) (b : Binary64) : op.apply .nan b = .nan := by
  cases op
  · exact Binary64.nan_add b
  · exact Binary64.nan_add _
  · exact Binary64.nan_mul b
  · simp [apply]

@[simp]
theorem apply_nan_right (op : Operator) (a : Binary64) : op.apply a .nan = .nan := by
  cases op
  · exact Binary64.add_nan a
  · exact Binary64.add_nan a
  · exact Binary64.mul_nan a
  · simp [apply, Binary64.isZero]

end Operator

end PocketCalculator
