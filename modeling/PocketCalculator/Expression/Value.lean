import PocketCalculator.Decimal.Numeral
import PocketCalculator.Expression.Order

/-!
# Values of expressions

The value of a sequence of tokens in postfix order is computed with a stack. A number puts its
value on the stack, and every other token takes two values from it and puts one back. The value of
the sequence is what lies at the bottom in the end.

Nothing stops at a failure: what has no value goes on as a number that is none, and whatever is
computed from it is none either. Only a token that does not find two values ends the evaluation.
-/

namespace PocketCalculator

/-! ## One token -/

/-- The value of the text of a number; what is no numeral has none. -/
def numberValue (text : Text) : Binary64 :=
  (readNumber? text).getD .nan

/-- What a token that is no number makes of the two values it takes. A parenthesis makes nothing
of them. -/
def Token.combine : Token → Binary64 → Binary64 → Binary64
  | .operator op, a, b => op.apply a b
  | _, _, _ => .nan

/-! ## A sequence in postfix order -/

/-- The value of a postfix sequence when `stack` is the stack, its top first. A token that does not
find two values ends the evaluation without a value. -/
def postfixValueFrom (stack : List Binary64) : List Token → Binary64
  | [] => stack.getLast?.getD .nan
  | .number text :: rest => postfixValueFrom (numberValue text :: stack) rest
  | token :: rest =>
    match stack with
    | b :: a :: below => postfixValueFrom (token.combine a b :: below) rest
    | _ => .nan

def postfixValue (tokens : List Token) : Binary64 :=
  postfixValueFrom [] tokens

@[simp]
theorem postfixValueFrom_operator (below : List Binary64) (a b : Binary64) (op : Operator)
    (rest : List Token) :
    postfixValueFrom (b :: a :: below) (.operator op :: rest) =
      postfixValueFrom (op.apply a b :: below) rest := rfl

/-- A token that finds fewer values than it takes leaves none. -/
theorem postfixValueFrom_eq_nan {stack : List Binary64} (hstack : stack.length < 2) {token : Token}
    (htoken : ∀ text, token ≠ .number text) (rest : List Token) :
    postfixValueFrom stack (token :: rest) = .nan := by
  cases token with
  | number text => exact absurd rfl (htoken text)
  | operator _ | openParen | closeParen =>
    match stack, hstack with
    | [], _ => rfl
    | [_], _ => rfl

/-! ## A list of tokens in any order -/

/-- The value of tokens in the order in which they are typed. Without any token it is zero. -/
def tokensValue (tokens : List Token) : Binary64 :=
  if tokens.isEmpty then .zero false else postfixValue (postfixOrder tokens)

end PocketCalculator
