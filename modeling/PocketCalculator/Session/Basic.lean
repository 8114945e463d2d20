import PocketCalculator.Session.Replay

/-!
# Sessions

A session is one use of the calculator. It replays keys, or calculates expressions that are given
together, or calculates the lines of an input. The three differ in where the work comes from; what
they show and leave behind has one form.
-/

namespace PocketCalculator

def calculateAll (options : Options) (expressions : List Text) : List Calculation :=
  expressions.map (calculate options)

/-- What keeps a session from being finished. -/
inductive SessionError
  /-- A word stands for no key. -/
  | unknownKey (error : UnknownKey)
  /-- A line of the input is no text. -/
  | inputNotText
deriving DecidableEq

/-- What a session shows, and what is left of it. -/
structure Session where
  /-- The lines that were shown. -/
  lines : List Text := []
  /-- What is left of it. -/
  outcome : Outcome := {}
  /-- What kept it from being finished, if anything did. -/
  error : Option SessionError := none
deriving DecidableEq

namespace Session

/-- A session that replays keys. It shows what the keypad shows in the end. -/
def ofKeys (options : Options) (keys : Text) : Session :=
  match replay options.places keys with
  | .ok keypad => { lines := [keypad.display], outcome := .ofKeypad keypad }
  | .error error => { error := some (.unknownKey error) }

def ofExpressions (options : Options) (expressions : List Text) : Session where
  lines := (calculateAll options expressions).map Calculation.display
  outcome := .ofCalculations (calculateAll options expressions)

theorem lines_ofExpressions (options : Options) (expressions : List Text) :
    (ofExpressions options expressions).lines =
      expressions.map fun expression ↦ (calculate options expression).display := by
  simp [ofExpressions, calculateAll, Function.comp_def]

end Session

end PocketCalculator
