import PocketCalculator.Toml.Lexeme

/-!
# TOML lines

A document is a sequence of lines: entries, headers of the tables that the entries after them
belong to, and blank lines. An entry is a key and a value, and a value may go on over several lines
of the text, as may the entries of a table between braces.

What a line says is kept here as it is written. So it is known of every line whether it is one
before it is asked of any what it means.
-/

namespace PocketCalculator.Toml

/-- A key with dots between its parts. -/
structure DottedKey where
  /-- The parts before the last one. -/
  path : List Lexeme
  /-- The last part. -/
  last : Lexeme

/-- A value as it is written. -/
inductive Written
  | leaf (lexeme : Lexeme)
  | array (items : List Written)
  /-- A table between braces. -/
  | braces (entries : List (DottedKey × Written))

/-- A line that is not blank. -/
inductive Line
  | entry (key : DottedKey) (value : Written)
  /-- A header with single brackets. -/
  | header (key : DottedKey)
  /-- A header with double brackets. -/
  | itemHeader (key : DottedKey)

/-! ## Between lexemes -/

/-- What follows blanks, line ends and comments. Where values may be spread over lines, this may
stand between their parts. The flag tells whether the text starts within a comment. -/
def skipFiller? (comment : Bool) : Text → Option Text
  | [] => some []
  | '\r' :: '\n' :: rest => skipFiller? false rest
  | c :: rest =>
    if c = '\n' then skipFiller? false rest
    else if comment then if isPlain c then skipFiller? true rest else none
    else if isInlineBlank c then skipFiller? false rest
    else if c = '#' then skipFiller? true rest
    else some (c :: rest)

/-- What follows a line end, where a comment may stand before it. -/
def skipLineEnd? (comment : Bool) : Text → Option Text
  | [] => some []
  | '\r' :: '\n' :: rest => some rest
  | c :: rest =>
    if c = '\n' then some rest
    else if comment then if isPlain c then skipLineEnd? true rest else none
    else if isInlineBlank c then skipLineEnd? false rest
    else if c = '#' then skipLineEnd? true rest
    else none

/-! ## Keys -/

/-- A way to read something at the start of a text. -/
abbrev Reader (α : Type) := Text → Option (α × Text)

/-- A key, and what follows it and the blanks after it. There are at most `parts` parts. -/
def readKeyUpTo? : (parts : Nat) → Reader DottedKey
  | 0, _ => none
  | parts + 1, text => do
    let (part, rest) ← readKeyPart? (skipBlanks text)
    match skipBlanks rest with
    | '.' :: rest =>
      let (key, rest) ← readKeyUpTo? parts rest
      return (⟨part :: key.path, key.last⟩, rest)
    | rest => return (⟨[], part⟩, rest)

/-- A key, and what follows it and the blanks after it. Each part has a character at least. -/
def readKey? : Reader DottedKey := fun text ↦
  readKeyUpTo? text.length text

/-! ## Values -/

/-- The items of an array and its closing bracket. There are at most `count` items. -/
def readItems? (item : Reader Written) : (count : Nat) → Reader (List Written)
  | 0, _ => none
  | count + 1, text => do
    match ← skipFiller? false text with
    | ']' :: rest => return ([], rest)
    | text =>
      let (value, rest) ← item text
      match ← skipFiller? false rest with
      | ',' :: rest =>
        let (values, rest) ← readItems? item count rest
        return (value :: values, rest)
      | ']' :: rest => return ([value], rest)
      | _ => none

/-- The entries of a table between braces and its closing brace. There are at most `count`. -/
def readBraces? (item : Reader Written) : (count : Nat) → Reader (List (DottedKey × Written))
  | 0, _ => none
  | count + 1, text => do
    match ← skipFiller? false text with
    | '\x7d' :: rest => return ([], rest)
    | text =>
      let (key, rest) ← readKey? text
      let rest ← takeChar? '=' (← skipFiller? false rest)
      let (value, rest) ← item (← skipFiller? false rest)
      match ← skipFiller? false rest with
      | ',' :: rest =>
        let (entries, rest) ← readBraces? item count rest
        return ((key, value) :: entries, rest)
      | '\x7d' :: rest => return ([(key, value)], rest)
      | _ => none

/-- A value in which arrays and tables are nested at most `depth` deep. -/
def readValueUpTo? : (depth : Nat) → Reader Written
  | _, [] => none
  | 0, c :: rest =>
    if c = '[' || c = '\x7b' then none
    else (readLeaf? (c :: rest)).map fun (lexeme, rest) ↦ (.leaf lexeme, rest)
  | depth + 1, c :: rest =>
    if c = '[' then
      (readItems? (readValueUpTo? depth) (rest.length + 1) rest).map fun (items, rest) ↦
        (.array items, rest)
    else if c = '\x7b' then
      (readBraces? (readValueUpTo? depth) (rest.length + 1) rest).map fun (entries, rest) ↦
        (.braces entries, rest)
    else (readLeaf? (c :: rest)).map fun (lexeme, rest) ↦ (.leaf lexeme, rest)

def maxDepth : Nat := 80

def readValue? : Reader Written :=
  readValueUpTo? maxDepth

/-! ## Lines -/

/-- The line at the start of a text that does not begin with blanks. -/
def readLine? : Reader Line
  | '[' :: '[' :: rest => do
    let (key, rest) ← readKey? rest
    let rest ← takeChar? ']' rest
    let rest ← takeChar? ']' rest
    return (.itemHeader key, rest)
  | '[' :: rest => do
    let (key, rest) ← readKey? rest
    let rest ← takeChar? ']' rest
    return (.header key, rest)
  | text => do
    let (key, rest) ← readKey? text
    let rest ← takeChar? '=' rest
    let (value, rest) ← readValue? (skipBlanks rest)
    return (.entry key value, rest)

/-- The lines of a text that are not blank, of which there are at most `count`. -/
def readLinesUpTo? : (count : Nat) → Text → Option (List Line)
  | 0, _ => none
  | count + 1, text => do
    match ← skipFiller? false text with
    | [] => return []
    | text =>
      let (line, rest) ← readLine? text
      let lines ← readLinesUpTo? count (← skipLineEnd? false rest)
      return line :: lines

/-- The lines of a text that are not blank. -/
def readLines? (text : Text) : Option (List Line) :=
  readLinesUpTo? (text.length + 1) text

end PocketCalculator.Toml
