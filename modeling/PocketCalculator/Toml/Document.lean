import PocketCalculator.Toml.Line

/-!
# TOML documents

A document that is made of lines is read from front to back: the table that it describes so far is
changed by each line, and a line that contradicts an earlier one, or that has a lexeme in it that
means nothing, is refused. What is refused first decides what is wrong with the document.
-/

namespace PocketCalculator.Toml

inductive Fault
  /-- It is not well formed. -/
  | malformed
  /-- A key has too many parts. -/
  | keyTooLong
deriving DecidableEq

/-- What there is in a well-formed document. -/
def orMalformed {α : Type} : Option α → Except Fault α
  | some a => .ok a
  | none => .error .malformed

/-! ## Keys and values -/

/-- How many parts of a key may come before the last one at most. -/
def maxPathLength : Nat := 79

/-- The parts of a key before the last one, and the last. -/
def DottedKey.parts (key : DottedKey) : Except Fault (List Text × Text) := do
  let path ← orMalformed (key.path.mapM Lexeme.key?)
  let last ← orMalformed key.last.key?
  if path.length ≤ maxPathLength then return (path, last) else throw .keyTooLong

mutual

/-- The value that is written. -/
def Written.value : Written → Except Fault Value
  | .leaf lexeme => orMalformed lexeme.value?
  | .array items => do return .array (← itemValues items)
  | .braces entries => do return .table .braces (← bracesEntries [] entries)

/-- The values that are written as the items of an array. -/
def itemValues : List Written → Except Fault (List Value)
  | [] => return []
  | item :: rest => do return (← item.value) :: (← itemValues rest)

/-- The entries of a table between braces, after those entered before. -/
def bracesEntries (before : Entries) : List (DottedKey × Written) → Except Fault Entries
  | [] => return before
  | (key, written) :: rest => do
    let (path, key) ← key.parts
    let value ← written.value
    bracesEntries (← orMalformed (before.insertDotted .braces path key value)) rest

end

/-! ## Lines -/

/-- The part of a document that was read. -/
structure Draft where
  /-- The table that the document describes. -/
  entries : Entries := []
  /-- The table that the next entry belongs to, as the path to it. -/
  current : List Text := []

namespace Draft

/-- Enters a value under a key of the current table. -/
def insert (draft : Draft) (path : List Text) (key : Text) (value : Value) : Option Draft := do
  let entries ← draft.entries.alterAt .implied .header draft.current fun origin inner ↦
    inner.insertDotted origin path key value
  return { draft with entries }

def add (draft : Draft) : Line → Except Fault Draft
  | .entry key written => do
    let (path, key) ← key.parts
    let value ← written.value
    orMalformed (draft.insert path key value)
  | .header key => do
    let (path, key) ← key.parts
    let entries ← orMalformed (draft.entries.openTable path key)
    return ⟨entries, path ++ [key]⟩
  | .itemHeader key => do
    let (path, key) ← key.parts
    let entries ← orMalformed (draft.entries.openItem path key)
    return ⟨entries, path ++ [key]⟩

end Draft

/-! ## Documents -/

/-- A text without the byte order mark it may start with. -/
def dropByteOrderMark : Text → Text
  | '\ufeff' :: rest => rest
  | text => text

/-- The table that a document describes, or what is wrong with it. -/
def readDocument (text : Text) : Except Fault Entries := do
  let lines ← orMalformed (readLines? (dropByteOrderMark text))
  let draft ← lines.foldlM Draft.add {}
  return draft.entries

end PocketCalculator.Toml
