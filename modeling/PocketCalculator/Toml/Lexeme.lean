import PocketCalculator.Toml.Quotes
import PocketCalculator.Toml.Scalar

/-!
# TOML lexemes

The least parts of a document that mean something on their own: words and strings. Where a lexeme
ends depends only on its first characters and on what may end it, and not on whether it means
anything; that is found out later, and differently for the part of a key and for a value.
-/

namespace PocketCalculator.Toml

/-- A word or a string as it is written. -/
inductive Lexeme
  | word (text : Text)
  /-- A string, as what stands between its quotes. -/
  | quoted (quoting : Quoting) (body : Text)
  /-- A string whose closing quotes are missing. -/
  | unclosed
deriving DecidableEq

/-! ## Reading -/

def skipBlanks (text : Text) : Text :=
  text.dropWhile isInlineBlank

/-- A string, after its opening quotes, and what follows it. Without closing quotes it ends with
its line, or with the text if it may have several. -/
def readQuoted (quoting : Quoting) (text : Text) : Lexeme × Text :=
  match quoting.split? false text with
  | some (body, rest) => (.quoted quoting body, rest)
  | none => (.unclosed, if quoting.multiline then [] else text.dropWhile (· ≠ '\n'))

/-- The string at the start of a text, and what follows it. -/
def readString? : Text → Option (Lexeme × Text)
  | '"' :: '"' :: '"' :: rest => some (readQuoted ⟨true, true⟩ rest)
  | '"' :: rest => some (readQuoted ⟨true, false⟩ rest)
  | '\'' :: '\'' :: '\'' :: rest => some (readQuoted ⟨false, true⟩ rest)
  | '\'' :: rest => some (readQuoted ⟨false, false⟩ rest)
  | _ => none

/-- The characters that end a word. -/
def delimiters : Text :=
  ['=', ',', '[', ']', '\x7b', '\x7d', '#', ' ', '\t', '\r', '\n']

def isWordChar (c : Char) : Bool :=
  !delimiters.contains c

/-- Whether a character can be part of a word in a key, which a point ends. -/
def isKeyChar (c : Char) : Bool :=
  isWordChar c && c ≠ '.'

/-- The part of a key at the start of a text, and what follows it. -/
def readKeyPart? (text : Text) : Option (Lexeme × Text) :=
  match readString? text, text.takeWhile isKeyChar with
  | some string, _ => some string
  | none, [] => none
  | none, word => some (.word word, text.dropWhile isKeyChar)

/-- The word at the start of a text, and what follows it. If only blanks stand before another word,
both are one, as a date and a time may be set apart like that. -/
def takeWord (text : Text) : Text × Text :=
  let first := text.takeWhile isWordChar
  let rest := text.dropWhile isWordChar
  let blanks := rest.takeWhile isInlineBlank
  let second := (skipBlanks rest).takeWhile isWordChar
  if blanks.isEmpty || second.isEmpty then (first, rest)
  else (first ++ blanks ++ second, (skipBlanks rest).dropWhile isWordChar)

/-- The lexeme of a value at the start of a text, and what follows it. -/
def readLeaf? (text : Text) : Option (Lexeme × Text) :=
  match readString? text, takeWord text with
  | some string, _ => some string
  | none, ([], _) => none
  | none, (word, rest) => some (.word word, rest)

/-! ## Meaning -/

/-- Whether a character may stand in a key without quotes. -/
def isBareKeyChar (c : Char) : Bool :=
  c.isAlphanum || c = '_' || c = '-'

namespace Lexeme

/-- The part of a key that a lexeme means. It is on one line. -/
def key? : Lexeme → Option Text
  | word text => if text.all isBareKeyChar then some text else none
  | quoted quoting body => if quoting.multiline then none else quoting.text? body
  | unclosed => none

/-- The value that a lexeme means. -/
def value? : Lexeme → Option Value
  | word text => readWord? text
  | quoted quoting body => (quoting.text? body).map .string
  | unclosed => none

end Lexeme

end PocketCalculator.Toml
