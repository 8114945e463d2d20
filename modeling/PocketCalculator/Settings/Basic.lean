import PocketCalculator.Calculation.Basic
import PocketCalculator.Toml.Document

/-!
# Settings

Settings are read from a TOML document. What it does not say is as it is by default, and what it
says beyond that is passed over; but a value of another kind than its key requires is an error.

The keys are `precision`, `log_filter` and, in the table `display`, `thousand_separators`. A table
may also be given as an array of its values in order. A date is taken for a table without any of
the keys.
-/

namespace PocketCalculator

/-- What can be set. -/
structure Settings extends Options where
  /-- Which messages of the log are shown. -/
  logFilter : Text := ['w', 'a', 'r', 'n']
deriving DecidableEq

namespace Settings

/-! ## Reading values -/

/-- A number of decimal places. -/
def readPlaces? : Toml.Value → Option Nat
  | .integer n => if 0 ≤ n && n < placesBound then some n.toNat else none
  | _ => none

def readText? : Toml.Value → Option Text
  | .string text => some text
  | _ => none

def readFlag? : Toml.Value → Option Bool
  | .boolean b => some b
  | _ => none

/-- The value of a key, read as its kind requires, or the default if the key is absent. -/
def readField? {α : Type} (entries : Toml.Entries) (key : Text) (default : α)
    (read? : Toml.Value → Option α) : Option α :=
  match entries.lookup key with
  | none => some default
  | some value => read? value

/-- Whether the values of all keys but the known ones can be passed over. -/
def othersReadable (known : List Text) (entries : Toml.Entries) : Bool :=
  entries.all fun (key, value) ↦ known.contains key || value.isReadable

/-! ## Reading a document -/

def placesKey : Text := "precision".toList

def logFilterKey : Text := "log_filter".toList

def displayKey : Text := "display".toList

def groupingKey : Text := "thousand_separators".toList

/-- Whether digits are grouped, as the value of the key `display` says it. -/
def readDisplay? (default : Bool) : Toml.Value → Option Bool
  | .table _ entries =>
    if othersReadable [groupingKey] entries then readField? entries groupingKey default readFlag?
    else none
  | .array [] => some default
  | .array (first :: _) => readFlag? first
  | .date => some default
  | _ => none

/-- The settings that the table of a document describes. -/
def ofEntries? (entries : Toml.Entries) : Option Settings := do
  let default : Settings := {}
  let places ← readField? entries placesKey default.places readPlaces?
  let logFilter ← readField? entries logFilterKey default.logFilter readText?
  let grouping ← readField? entries displayKey default.grouping (readDisplay? default.grouping)
  if othersReadable [placesKey, logFilterKey, displayKey] entries then
    return { places, grouping, logFilter }
  else none

/-- The settings that a text describes, or what is wrong with it. -/
def read (text : Text) : Except Toml.Fault Settings := do
  Toml.orMalformed (ofEntries? (← Toml.readDocument text))

end Settings

end PocketCalculator
