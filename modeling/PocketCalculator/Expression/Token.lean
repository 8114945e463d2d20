import PocketCalculator.Expression.Operator
import PocketCalculator.Text.Blank

/-!
# Tokens

An expression is typed as a text and read as a list of tokens. Reading never fails: a run of
digits and points is a number, whether or not it is a numeral, and a character that means nothing
to the calculator is passed over.

A minus is an operator, except where an operand must follow: at the start, after an operator and
after an opening parenthesis. There it is the sign of the number that follows it, and an operator
only if no number follows at once. Blanks are removed before anything else, so they may stand
anywhere, also inside a number.
-/

namespace PocketCalculator

/-- A unit of an expression. -/
inductive Token
  /-- The text of a number, perhaps with a minus in front. It need not be a numeral. -/
  | number (text : Text)
  | operator (op : Operator)
  | openParen
  | closeParen
deriving DecidableEq

namespace Token

/-- A token as it is typed. -/
def text : Token → Text
  | number text => text
  | operator op => [op.symbol]
  | openParen => ['(']
  | closeParen => [')']

/-- Whether an operand must follow a token, so that a minus after it is a sign. -/
def awaitsOperand : Token → Bool
  | operator _ | openParen => true
  | number _ | closeParen => false

/-- The token that a single character is by itself, if it is one. -/
def ofChar? (c : Char) : Option Token :=
  if c = '(' then some openParen
  else if c = ')' then some closeParen
  else (Operator.ofSymbol? c).map operator

end Token

/-- Whether a character can be part of a number. -/
def isNumeralChar (c : Char) : Bool :=
  c.isDigit || c = '.'

/-! ## Reading -/

/-- The tokens of a text without blanks. The flag tells whether an operand must come next. -/
def scanFrom (operandNext : Bool) : Text → List Token
  | [] => []
  | c :: rest =>
    let digits := rest.takeWhile isNumeralChar
    let afterDigits := rest.dropWhile isNumeralChar
    if isNumeralChar c then
      .number (c :: digits) :: scanFrom false afterDigits
    else if c = '-' && operandNext && !digits.isEmpty then
      .number (c :: digits) :: scanFrom false afterDigits
    else
      match Token.ofChar? c with
      | some token => token :: scanFrom token.awaitsOperand rest
      | none => scanFrom operandNext rest
termination_by text => text.length
decreasing_by
  · exact Nat.lt_succ_of_le (length_dropWhile_le _ rest)
  · exact Nat.lt_succ_of_le (length_dropWhile_le _ rest)
  · simp
  · simp

def scan (text : Text) : List Token :=
  scanFrom true (text.filter (!isBlank ·))

@[simp]
theorem scanFrom_nil (operandNext : Bool) : scanFrom operandNext [] = [] := by
  rw [scanFrom]

theorem scanFrom_number {c : Char} (h : isNumeralChar c = true) (operandNext : Bool) (rest : Text) :
    scanFrom operandNext (c :: rest) =
      .number (c :: rest.takeWhile isNumeralChar) ::
        scanFrom false (rest.dropWhile isNumeralChar) := by
  rw [scanFrom]
  simp [h]

/-- A minus where an operand must come is the sign of the number after it. -/
theorem scanFrom_sign {rest : Text} (h : rest.takeWhile isNumeralChar ≠ []) :
    scanFrom true ('-' :: rest) =
      .number ('-' :: rest.takeWhile isNumeralChar) ::
        scanFrom false (rest.dropWhile isNumeralChar) := by
  have hminus : isNumeralChar '-' = false := by decide
  have hsome : (rest.takeWhile isNumeralChar).isEmpty = false := by simpa using h
  rw [scanFrom]
  simp [hminus, hsome]

theorem scanFrom_char {c : Char} {token : Token} {operandNext : Bool} {rest : Text}
    (hnumber : isNumeralChar c = false) (htoken : Token.ofChar? c = some token)
    (hsign : c = '-' → operandNext = true → rest.takeWhile isNumeralChar = []) :
    scanFrom operandNext (c :: rest) = token :: scanFrom token.awaitsOperand rest := by
  rw [scanFrom]
  by_cases hc : c = '-'
  · cases operandNext with
    | false => simp [hnumber, htoken]
    | true => simp [hnumber, htoken, hsign hc rfl]
  · simp [hnumber, htoken, hc]

theorem scanFrom_skip {c : Char} (hnumber : isNumeralChar c = false)
    (htoken : Token.ofChar? c = none) (operandNext : Bool) (rest : Text) :
    scanFrom operandNext (c :: rest) = scanFrom operandNext rest := by
  have hc : c ≠ '-' := by
    rintro rfl
    cases htoken
  rw [scanFrom]
  simp [hnumber, htoken, hc]

end PocketCalculator
