import PocketCalculator.Keypad.Basic

/-!
# Outcomes

What is left of a session once its results are shown: whether anything in it failed, and the last
text that is worth copying.
-/

namespace PocketCalculator

structure Outcome where
  /-- Whether an evaluation failed. -/
  failed : Bool := false
  /-- The plain text of the last value, if there was one. -/
  copyable : Option Text := none
deriving DecidableEq

namespace Outcome

/-- The outcome of a session in which one more calculation is made. A later success does not undo
a failure, and a failure leaves the last text as it was. -/
def add (outcome : Outcome) (calculation : Calculation) : Outcome :=
  match calculation.plain? with
  | some plain => { outcome with copyable := some plain }
  | none => { outcome with failed := true }

def ofCalculations (calculations : List Calculation) : Outcome :=
  calculations.foldl add {}

/-- The outcome of a session at the keypad: what it shows in the end. -/
def ofKeypad (keypad : Keypad) : Outcome where
  failed := keypad.isError
  copyable := if !keypad.isError && keypad.result ≠ [] then some keypad.result else none

@[simp]
theorem ofCalculations_nil : ofCalculations [] = {} := rfl

theorem ofCalculations_append_singleton (calculations : List Calculation)
    (calculation : Calculation) :
    ofCalculations (calculations ++ [calculation]) =
      (ofCalculations calculations).add calculation := by
  simp [ofCalculations]

end Outcome

end PocketCalculator
