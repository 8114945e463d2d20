import PocketCalculator.Text.Basic

/-!
# TOML values

What a TOML document says, as far as a reader of settings wants to know: numbers with a fraction
and dates are told apart from everything else, but what they are is not kept.

## How a table came to be

A table may be written in pieces, and which pieces may follow depends on how it was begun. A table
that a header names is complete except for tables below it; one that a longer header merely passes
through may still get a header of its own; one begun by a dotted key goes on in dotted keys only;
and one between braces is complete. `Origin` keeps this apart while a document is read.
-/

namespace PocketCalculator.Toml

/-- How a table was begun. -/
inductive Origin
  /-- By a header of its own, or as the document itself. -/
  | header
  /-- By a longer header that passes through it. -/
  | implied
  /-- By a dotted key that passes through it. -/
  | dotted
  /-- Between braces. -/
  | braces
deriving DecidableEq

inductive Value
  | string (text : Text)
  | integer (n : Int)
  | boolean (b : Bool)
  /-- A number that is not whole, or an infinity or no number. -/
  | float
  /-- What is written like a number and cannot be read as one: it is too large for any type of
  number, or what should be its digits are none. -/
  | unreadable
  /-- A date, a time or both. -/
  | date
  | array (items : List Value)
  | table (origin : Origin) (entries : List (Text × Value))
  /-- The tables of one name with double brackets, the last one first. -/
  | tables (items : List (List (Text × Value)))

/-- The entries of a table, in the order of their first keys. -/
abbrev Entries := List (Text × Value)

/-! ## Entering values -/

/-- Changes the value of a key, which may be absent. The change may be refused. -/
def Entries.alter (entries : Entries) (key : Text) (change : Option Value → Option Value) :
    Option Entries :=
  match entries with
  | [] => (change none).map fun value ↦ [(key, value)]
  | (key', value) :: rest =>
    if key' = key then (change (some value)).map fun value ↦ (key', value) :: rest
    else (Entries.alter rest key change).map ((key', value) :: ·)

/-- Changes the entries of the table at the end of a path. Tables that are absent on the way are
begun, with the origin `passing`. An array of tables is passed through its last table. -/
def Entries.alterAt (passing origin : Origin) (entries : Entries) (path : List Text)
    (change : Origin → Entries → Option Entries) : Option Entries :=
  match path with
  | [] => change origin entries
  | key :: path =>
    entries.alter key fun
      | none => (Entries.alterAt passing passing [] path change).map (.table passing)
      | some (.table origin inner) =>
        if origin = .braces || (passing = .dotted && origin = .header) then none
        else (Entries.alterAt passing origin inner path change).map (.table origin)
      | some (.tables (last :: earlier)) =>
        (Entries.alterAt passing .header last path change).map fun last ↦
          .tables (last :: earlier)
      | some _ => none

/-- Enters a value under a key that has none yet. -/
def Entries.insertNew (entries : Entries) (key : Text) (value : Value) : Option Entries :=
  entries.alter key fun
    | none => some value
    | some _ => none

/-- Enters a value under a dotted key, whose parts are `path` and `key`. The table that it is
entered in must have been begun by a dotted key too, if the key has several parts. -/
def Entries.insertDotted (origin : Origin) (entries : Entries) (path : List Text) (key : Text)
    (value : Value) : Option Entries :=
  entries.alterAt .dotted origin path fun origin inner ↦
    if path.isEmpty = decide (origin = .dotted) then none else inner.insertNew key value

/-- Begins the table that a header names. -/
def Entries.openTable (entries : Entries) (path : List Text) (key : Text) : Option Entries :=
  entries.alterAt .implied .header path fun _ inner ↦
    inner.alter key fun
      | none => some (.table .header [])
      | some (.table .implied inner) => some (.table .header inner)
      | some _ => none

/-- Begins another table of the array that a header with double brackets names. -/
def Entries.openItem (entries : Entries) (path : List Text) (key : Text) : Option Entries :=
  entries.alterAt .implied .header path fun _ inner ↦
    inner.alter key fun
      | none => some (.tables [[]])
      | some (.tables items) => some (.tables ([] :: items))
      | some _ => none

/-! ## Reading values -/

mutual

/-- Whether every number in a value can be read. -/
def Value.isReadable : Value → Bool
  | .unreadable => false
  | .array items => itemsReadable items
  | .table _ entries => entriesReadable entries
  | .tables items => tablesReadable items
  | _ => true

def itemsReadable : List Value → Bool
  | [] => true
  | item :: rest => item.isReadable && itemsReadable rest

def entriesReadable : List (Text × Value) → Bool
  | [] => true
  | (_, value) :: rest => value.isReadable && entriesReadable rest

def tablesReadable : List (List (Text × Value)) → Bool
  | [] => true
  | entries :: rest => entriesReadable entries && tablesReadable rest

end

end PocketCalculator.Toml
