import PocketCalculator.Expression.Operator

/-!
# Keys

A key of the keypad is pressed on a grid of buttons or typed on a keyboard. The buttons have labels
and the keyboard's keys have names, and both lead to the same few actions.
-/

namespace PocketCalculator

/-- What pressing a key does. -/
inductive Key
  /-- Appends a digit. -/
  | digit (c : Char)
  /-- Appends an operator, or replaces the one at the end. -/
  | operator (op : Operator)
  /-- Starts the decimals of the number at the end. -/
  | dot
  /-- Divides the number at the end by a hundred. -/
  | percent
  /-- Removes the last character. -/
  | delete
  /-- Starts anew. -/
  | clear
  /-- Evaluates the expression. -/
  | equals
deriving DecidableEq

namespace Key

/-- The key that types a character. -/
def ofChar? (c : Char) : Option Key :=
  if c.isDigit then some (digit c)
  else if c = '.' then some dot
  else if c = '%' then some percent
  else (Operator.ofSymbol? c).map operator

/-- The keys of a keyboard that type no character, by their names. -/
def namedKeys : List (Text × Key) :=
  [(['E', 'n', 't', 'e', 'r'], equals),
   (['B', 'a', 'c', 'k', 's', 'p', 'a', 'c', 'e'], delete),
   (['E', 's', 'c', 'a', 'p', 'e'], clear)]

/-- The buttons that no key of a keyboard is named like, by their labels. -/
def labelledKeys : List (Text × Key) :=
  [(['A', 'C'], clear), (['D', 'E', 'L'], delete), (['='], equals)]

/-- The key of a keyboard with a name. -/
def ofName? (name : Text) : Option Key :=
  match namedKeys.lookup name with
  | some key => some key
  | none =>
    match name with
    | [c] => ofChar? c
    | _ => none

/-- The button with a label, or else the key of a keyboard with that name. -/
def ofLabel? (label : Text) : Option Key :=
  match labelledKeys.lookup label with
  | some key => some key
  | none => ofName? label

/-- The labels of the buttons, row by row. -/
def buttons : List Text :=
  [['A', 'C'], ['D', 'E', 'L'], ['%'], ['/'],
   ['7'], ['8'], ['9'], ['*'],
   ['4'], ['5'], ['6'], ['-'],
   ['1'], ['2'], ['3'], ['+'],
   ['0'], ['.'], ['=']]

theorem mem_of_lookup {keys : List (Text × Key)} {name : Text} {key : Key}
    (h : keys.lookup name = some key) : (name, key) ∈ keys := by
  obtain ⟨before, after, rfl, -⟩ := List.lookup_eq_some_iff.mp h
  simp

theorem ofChar?_eq_digit_iff {c d : Char} :
    ofChar? c = some (digit d) ↔ c = d ∧ c.isDigit = true := by
  unfold ofChar?
  split
  · next h => simp [h]
  · next h =>
    repeat' split
    all_goals simp [h]

theorem isDigit_of_ofLabel? {label : Text} {c : Char} (h : ofLabel? label = some (digit c)) :
    c.isDigit = true := by
  unfold ofLabel? at h
  split at h
  · next key hkey =>
    cases h
    simpa [labelledKeys] using mem_of_lookup hkey
  · unfold ofName? at h
    split at h
    · next key hkey =>
      cases h
      simpa [namedKeys] using mem_of_lookup hkey
    · split at h
      · obtain ⟨rfl, hdigit⟩ := ofChar?_eq_digit_iff.mp h
        exact hdigit
      · cases h

end Key

end PocketCalculator
