import PocketCalculator.Decimal.Basic

/-!
# Reading numerals

A numeral is an optional sign and then either digits with an optional point among them and an
optional exponent, or one of the words `inf`, `infinity` and `nan` in any case. There is at least
one digit, before or after the point, and nothing else: no blanks, no separators. Its value is the
binary64 number nearest to what it denotes, however many digits it has.
-/

namespace PocketCalculator

/-- The whole number that a run of digits denotes. -/
def digitsValue (digits : Text) : Nat :=
  Nat.ofDigitChars 10 digits 0

/-- The sign in front of a text, `true` for a minus, and the rest. -/
def takeSign : Text → Bool × Text
  | '-' :: rest => (true, rest)
  | '+' :: rest => (false, rest)
  | text => (false, text)

/-- The exponent at the end of a numeral: nothing, or an `e`, an optional sign and digits. -/
def readExponent? : Text → Option Int
  | [] => some 0
  | e :: rest =>
    let (negative, digits) := takeSign rest
    if (e = 'e' || e = 'E') && !digits.isEmpty && digits.all Char.isDigit then
      some (if negative then -digitsValue digits else digitsValue digits)
    else none

/-- The digits after the point of a numeral, and what follows them. Without a point there are
none. -/
def takeFraction : Text → Text × Text
  | '.' :: rest => (rest.takeWhile Char.isDigit, rest.dropWhile Char.isDigit)
  | text => ([], text)

/-- The decimal that a numeral without a sign denotes. The digits on both sides of the point make
up the coefficient, and each after the point lowers the exponent by one. -/
def readDecimal? (text : Text) : Option Decimal :=
  let whole := text.takeWhile Char.isDigit
  let (fraction, rest) := takeFraction (text.dropWhile Char.isDigit)
  if whole.isEmpty && fraction.isEmpty then none
  else (readExponent? rest).map fun exponent ↦
    ⟨digitsValue (whole ++ fraction), exponent - fraction.length⟩

/-- The words that numerals may be, with what they mean for a sign. -/
def readNumberWord? (negative : Bool) (text : Text) : Option Binary64 :=
  let lower := text.map Char.toLower
  if lower = ['i', 'n', 'f'] || lower = ['i', 'n', 'f', 'i', 'n', 'i', 't', 'y'] then
    some (.infinite negative)
  else if lower = ['n', 'a', 'n'] then some .nan
  else none

/-- The number that a text is a numeral of. -/
def readNumber? (text : Text) : Option Binary64 :=
  let (negative, unsigned) := takeSign text
  readNumberWord? negative unsigned <|> (readDecimal? unsigned).map (Decimal.round negative)

theorem takeSign_minus (rest : Text) : takeSign ('-' :: rest) = (true, rest) := rfl

theorem takeFraction_point (rest : Text) :
    takeFraction ('.' :: rest) = (rest.takeWhile Char.isDigit, rest.dropWhile Char.isDigit) := rfl

end PocketCalculator
