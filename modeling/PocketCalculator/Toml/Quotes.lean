import PocketCalculator.Text.Digit

/-!
# TOML strings

A string stands between single or double quotes, on one line between one of them and on several
between three. Between double quotes a backslash begins an escape; between single quotes every
character stands for itself.

A string is read in two steps: first its closing quotes are found, then what stands between the
quotes is checked and its escapes are resolved.
-/

namespace PocketCalculator.Toml

/-- Whether a character may stand in a string or a comment: a tab, or anything that is no control
character of the ASCII range. -/
def isPlain (c : Char) : Bool :=
  c = '\t' || (0x20 ≤ c.toNat && c.toNat ≠ 0x7f)

def isInlineBlank (c : Char) : Bool :=
  c = ' ' || c = '\t'

/-- A way to quote a string. -/
structure Quoting where
  /-- Whether the quotes are double ones, between which a backslash begins an escape. -/
  escapes : Bool
  /-- Whether there are three quotes, between which lines may end. -/
  multiline : Bool
deriving DecidableEq

namespace Quoting

def quote (quoting : Quoting) : Char :=
  if quoting.escapes then '"' else '\''

/-! ## Finding the closing quotes -/

/-- If a text begins with closing quotes, the part of the string that is in them, and what follows
them. Of five quotes at most, where three close, those before the last three are that part. -/
def closing? (quoting : Quoting) : Text → Option (Text × Text)
  | [] => none
  | c :: rest =>
    if c ≠ quoting.quote then none
    else if !quoting.multiline then some ([], rest)
    else if rest.take 2 = [c, c] then
      let extra := ((rest.drop 2).takeWhile (· = c)).take 2
      some (extra, (rest.drop 2).drop extra.length)
    else none

/-- The part of a text up to the closing quotes, and what follows them. There is none if the quotes
are missing, or if one line is all that there is and it ends before them. A character that is
`escaped`, with a backslash before it, closes nothing. -/
def split? (quoting : Quoting) (escaped : Bool) : Text → Option (Text × Text)
  | [] => none
  | c :: rest =>
    match if escaped then none else quoting.closing? (c :: rest) with
    | some closed => some closed
    | none =>
      if c = '\n' && !quoting.multiline then none
      else
        (split? quoting (quoting.escapes && !escaped && c = '\\') rest).map
          fun (body, rest) ↦ (c :: body, rest)

end Quoting

/-! ## Resolving escapes -/

/-- The character with a code point in hexadecimal digits, if there are as many as required and
it is one of a character. -/
def codePoint? (count : Nat) (digits : Text) : Option Char :=
  if digits.length = count then
    (baseValue? 16 digits).bind fun n ↦ if n.isValidChar then some (Char.ofNat n) else none
  else none

/-- How many digits of a code point follow the character after a backslash. -/
def escapeDigits (c : Char) : Nat :=
  if c = 'x' then 2 else if c = 'u' then 4 else if c = 'U' then 8 else 0

/-- The character that an escape stands for: `c` is what follows the backslash, and `digits` the
digits after it, if it takes any. -/
def escaped? (c : Char) (digits : Text) : Option Char :=
  match c with
  | 'b' => some '\x08'
  | 't' => some '\t'
  | 'n' => some '\n'
  | 'f' => some '\x0c'
  | 'r' => some '\r'
  | 'e' => some '\x1b'
  | '"' => some '"'
  | '\\' => some '\\'
  | _ => if escapeDigits c = 0 then none else codePoint? (escapeDigits c) digits

def isLineEndChar (c : Char) : Bool :=
  c = '\n' || c = '\r'

/-- Whether a character may stand between quotes as itself. -/
def Quoting.admits (quoting : Quoting) (c : Char) : Bool :=
  isPlain c || (quoting.multiline && isLineEndChar c)

/-- Whether a backslash before this text ends its line: only blanks follow on it. -/
def isLineContinued (text : Text) : Bool :=
  (text.dropWhile isInlineBlank).head?.any isLineEndChar

/-- What stands between double quotes, with its escapes resolved. Where lines may end, a backslash
at the end of one removes all blanks and line ends after it. -/
def Quoting.unescape (quoting : Quoting) : Text → Option Text
  | [] => some []
  | c :: rest =>
    if c ≠ '\\' then
      if quoting.admits c then (quoting.unescape rest).map (c :: ·) else none
    else if quoting.multiline && isLineContinued rest then
      quoting.unescape (rest.dropWhile fun d ↦ isInlineBlank d || isLineEndChar d)
    else
      match rest with
      | [] => none
      | d :: rest =>
        match escaped? d (rest.take (escapeDigits d)) with
        | none => none
        | some e => (quoting.unescape (rest.drop (escapeDigits d))).map (e :: ·)
termination_by text => text.length
decreasing_by
  · simp
  · exact Nat.lt_succ_of_le (length_dropWhile_le _ rest)
  · simp only [List.length_cons, List.length_drop]
    omega

/-! ## Strings -/

/-- Whether a carriage return stands anywhere but before a line feed. -/
def hasLoneReturn : Text → Bool
  | '\r' :: '\n' :: rest => hasLoneReturn rest
  | c :: rest => c = '\r' || hasLoneReturn rest
  | [] => false

/-- A text without the line end that it may start with. -/
def dropLineEnd : Text → Text
  | '\r' :: '\n' :: rest => rest
  | '\n' :: rest => rest
  | text => text

/-- The string that stands between quotes, if it may. A line end right after three opening quotes
is no part of it; any other is kept as it is written. -/
def Quoting.text? (quoting : Quoting) (body : Text) : Option Text :=
  let body := if quoting.multiline then dropLineEnd body else body
  if hasLoneReturn body then none
  else if quoting.escapes then quoting.unescape body
  else if body.all quoting.admits then some body
  else none

end PocketCalculator.Toml
