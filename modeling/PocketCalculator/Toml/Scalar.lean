import PocketCalculator.Decimal.Numeral
import PocketCalculator.Text.Digit
import PocketCalculator.Toml.Value

/-!
# TOML numbers, dates and truth values

A value without quotes or brackets is a word, which may have a blank in it where it is a date and a
time. What kind of value it is shows in the word.
-/

namespace PocketCalculator.Toml

/-! ## Numbers -/

/-- A run of digits without the underscores in it, of which each stands between two digits. -/
def joinDigits? (isDigit : Char → Bool) (text : Text) : Option Text :=
  let groups := text.splitOn '_'
  if groups.all fun group ↦ !group.isEmpty && group.all isDigit then some groups.flatten else none

/-- Whether digits are those of a whole number: no zero stands in front. -/
def hasNoLeadingZero (digits : Text) : Bool :=
  digits.length = 1 || digits.head? ≠ some '0'

/-- The largest number that a reader of whole numbers can ask for has 128 bits. -/
def integerBits : Nat := 128

def Value.ofInteger (n : Int) : Value :=
  if -(Nat.pow 2 (integerBits - 1) : Nat) ≤ n && n < (Nat.pow 2 integerBits : Nat) then .integer n
  else .unreadable

/-- The number that the digits of a base denote, with underscores among them. There may be no
digits at all, and that is found out only when the number is asked for. -/
def readBase? (base : Nat) (text : Text) : Option Value :=
  if text.isEmpty then some .unreadable
  else do
    let digits ← joinDigits? (fun c ↦ (digitOf? base c).isSome) text
    let n ← baseValue? base digits
    return .ofInteger n

/-- Whether a text is taken for a number in base ten because of its underscores: they come after
digits without a zero in front, and each has a digit of some base on either side. What stands
between them is not looked at, but that it has no sign of a fraction, an exponent or a time. -/
def isGrouped (text : Text) : Bool :=
  match text.splitOn '_' with
  | [] => false
  | first :: rest =>
    first.all Char.isDigit && first.head?.any (· ≠ '0') && !rest.isEmpty &&
      rest.all (fun group ↦ group.head?.any (hexDigit? · |>.isSome)) &&
      rest.dropLast.all (fun group ↦ group.getLast?.any (hexDigit? · |>.isSome)) &&
      text.all fun c ↦ c ≠ '.' && c ≠ 'e' && c ≠ 'E' && c ≠ ' ' && c ≠ '\t'

/-- A whole number in base ten with an optional sign. Grouped by underscores, it may turn out to be
none when it is asked for. -/
def readDecimal? (text : Text) : Option Value :=
  let (negative, unsigned) := takeSign text
  match joinDigits? Char.isDigit unsigned with
  | some digits =>
    if hasNoLeadingZero digits then
      some (.ofInteger (if negative then -digitsValue digits else digitsValue digits))
    else none
  | none => if isGrouped unsigned then some .unreadable else none

/-- A whole number: in base ten with an optional sign, or in another base without one. -/
def readInteger? : Text → Option Value
  | '0' :: 'x' :: rest => readBase? 16 rest
  | '0' :: 'o' :: rest => readBase? 8 rest
  | '0' :: 'b' :: rest => readBase? 2 rest
  | text => readDecimal? text

/-- Whether a character is part of a run of digits. -/
def isDigitOrUnderscore (c : Char) : Bool :=
  c.isDigit || c = '_'

/-- The exponent of a number, without underscores, from its `e` on. -/
def joinExponent? : Text → Option Text
  | [] => some []
  | e :: rest =>
    let (negative, digits) := takeSign rest
    if e = 'e' || e = 'E' then
      (joinDigits? Char.isDigit digits).map fun digits ↦
        'e' :: (if negative then '-' :: digits else digits)
    else none

/-- The fraction of a number, without underscores, from its point on, and what follows it. -/
def joinFraction? : Text → Option (Text × Text)
  | '.' :: rest =>
    (joinDigits? Char.isDigit (rest.takeWhile isDigitOrUnderscore)).map fun digits ↦
      ('.' :: digits, rest.dropWhile isDigitOrUnderscore)
  | text => some ([], text)

/-- The numeral of a number with a fraction, an exponent or both, without a sign and without
underscores. -/
def joinFloat? (text : Text) : Option Text := do
  let whole ← joinDigits? Char.isDigit (text.takeWhile isDigitOrUnderscore)
  let rest := text.dropWhile isDigitOrUnderscore
  let (fraction, rest) ← joinFraction? rest
  let exponent ← joinExponent? rest
  if hasNoLeadingZero whole && !(fraction.isEmpty && exponent.isEmpty) then
    return whole ++ fraction ++ exponent
  else none

def readFloat? (text : Text) : Option Value :=
  let unsigned := (takeSign text).2
  if unsigned = ['i', 'n', 'f'] || unsigned = ['n', 'a', 'n'] then some .float
  else do
    let value ← readNumber? (← joinFloat? unsigned)
    return if value.isFinite then .float else .unreadable

/-! ## Dates and times -/

/-- A number of two digits, between bounds, and what follows it. -/
def takeTwoDigits? (low high : Nat) : Text → Option (Nat × Text)
  | a :: b :: rest =>
    let n := digitsValue [a, b]
    if a.isDigit && b.isDigit && low ≤ n && n ≤ high then some (n, rest) else none
  | _ => none

/-- What follows a character that must come first. -/
def takeChar? (c : Char) : Text → Option Text
  | d :: rest => if c = d then some rest else none
  | [] => none

def monthDays (year month : Nat) : Nat :=
  if month = 2 then
    if year % 4 = 0 && (year % 100 ≠ 0 || year % 400 = 0) then 29 else 28
  else if month = 4 || month = 6 || month = 9 || month = 11 then 30
  else 31

def afterDate? (text : Text) : Option Text :=
  let year := text.take 4
  if year.length = 4 && year.all Char.isDigit then do
    let rest ← takeChar? '-' (text.drop 4)
    let (month, rest) ← takeTwoDigits? 1 12 rest
    let rest ← takeChar? '-' rest
    let (_, rest) ← takeTwoDigits? 1 (monthDays (digitsValue year) month) rest
    return rest
  else none

/-- What follows the seconds of a time and their decimals. There may be none; the sixtieth is a
leap second. -/
def afterSeconds? : Text → Option Text
  | ':' :: rest => do
    let (_, rest) ← takeTwoDigits? 0 60 rest
    match rest with
    | '.' :: decimals =>
      if (decimals.head?.any Char.isDigit) then return decimals.dropWhile Char.isDigit else none
    | _ => return rest
  | text => some text

/-- What follows a time of day. -/
def afterTime? (text : Text) : Option Text := do
  let (_, rest) ← takeTwoDigits? 0 23 text
  let rest ← takeChar? ':' rest
  let (_, rest) ← takeTwoDigits? 0 59 rest
  afterSeconds? rest

/-- Whether a text is nothing or the offset of a time zone. -/
def isOffset : Text → Bool
  | [] => true
  | c :: rest =>
    if c = 'Z' || c = 'z' then rest.isEmpty
    else if c = '+' || c = '-' then
      (do
        let (_, rest) ← takeTwoDigits? 0 23 rest
        let rest ← takeChar? ':' rest
        let (_, rest) ← takeTwoDigits? 0 59 rest
        return rest) = some []
    else false

def isDate (text : Text) : Bool :=
  match afterDate? text with
  | none => afterTime? text = some []
  | some [] => true
  | some (c :: rest) => (c = 'T' || c = 't' || c = ' ') && (afterTime? rest).any isOffset

/-! ## Words -/

def readWord? (word : Text) : Option Value :=
  if word = ['t', 'r', 'u', 'e'] then some (.boolean true)
  else if word = ['f', 'a', 'l', 's', 'e'] then some (.boolean false)
  else if isDate word then some .date
  else readInteger? word <|> readFloat? word

end PocketCalculator.Toml
