import PocketCalculator.Text.Hidden

/-!
# Quoted text

How a message shows a text that it was given: between double quotes, with a backslash before a
quote or a backslash, and with an escape in place of each character that would not show.
-/

namespace PocketCalculator

/-- The escape of a character by its code point in lower-case hexadecimal digits. -/
def codePointEscape (c : Char) : Text :=
  ['\\', 'u', '{'] ++ Nat.toDigits 16 c.toNat ++ ['}']

/-- A character as it stands inside quotes. -/
def escape (c : Char) : Text :=
  if c = '"' || c = '\\' then ['\\', c]
  else if c = '\n' then ['\\', 'n']
  else if c = '\r' then ['\\', 'r']
  else if c = '\t' then ['\\', 't']
  else if c = '\x00' then ['\\', '0']
  else if isHidden c then codePointEscape c
  else [c]

def quoted (text : Text) : Text :=
  '"' :: text.flatMap escape ++ ['"']

end PocketCalculator
