import PocketCalculator.Expression.Token

/-!
# Postfix order

An expression is evaluated in postfix order, in which an operator follows its operands and no
parentheses are needed. This module puts tokens into that order.

Numbers keep their order. An operator waits on a stack until its right operand is complete: until
an operator that binds no more strongly, a closing parenthesis or the end. An opening parenthesis
waits on the same stack and shields what is below it until it is closed.

Any list of tokens can be put into postfix order. A closing parenthesis without an opening one
releases all that waits, as if the opening one stood at the start; an opening parenthesis that is
never closed comes out at the end like an operator, and there is no value to give it.
-/

namespace PocketCalculator

/-! ## One token -/

/-- Whether a waiting token is released by an operator: it is an operator that binds at least as
strongly, since operators of equal strength are applied from left to right. -/
def isReleasedBy (op : Operator) : Token → Bool
  | .operator waiting => op.precedence ≤ waiting.precedence
  | _ => false

/-- What a token sends out when `waiting` is the stack. -/
def released (waiting : List Token) : Token → List Token
  | .number text => [.number text]
  | .operator op => waiting.takeWhile (isReleasedBy op)
  | .openParen => []
  | .closeParen => waiting.takeWhile (· ≠ .openParen)

/-- What waits after a token when `waiting` is the stack before it. A closing parenthesis takes
the opening one with it. -/
def stillWaiting (waiting : List Token) : Token → List Token
  | .number _ => waiting
  | .operator op => .operator op :: waiting.dropWhile (isReleasedBy op)
  | .openParen => .openParen :: waiting
  | .closeParen => (waiting.dropWhile (· ≠ .openParen)).tail

/-! ## A list of tokens -/

/-- What a list of tokens sends out when `waiting` is the stack; at the end all that waits. -/
def orderFrom (waiting : List Token) : List Token → List Token
  | [] => waiting
  | token :: rest => released waiting token ++ orderFrom (stillWaiting waiting token) rest

def postfixOrder (tokens : List Token) : List Token :=
  orderFrom [] tokens

@[simp]
theorem orderFrom_nil (waiting : List Token) : orderFrom waiting [] = waiting := rfl

theorem orderFrom_cons (waiting : List Token) (token : Token) (rest : List Token) :
    orderFrom waiting (token :: rest) =
      released waiting token ++ orderFrom (stillWaiting waiting token) rest := rfl

@[simp]
theorem orderFrom_number (waiting : List Token) (text : Text) (rest : List Token) :
    orderFrom waiting (.number text :: rest) = .number text :: orderFrom waiting rest := rfl

@[simp]
theorem orderFrom_openParen (waiting : List Token) (rest : List Token) :
    orderFrom waiting (.openParen :: rest) = orderFrom (.openParen :: waiting) rest := rfl

section
variable {above : List Token} (h : Token.openParen ∉ above) (below : List Token)

include h

theorem released_closeParen : released (above ++ .openParen :: below) .closeParen = above := by
  have hall : ∀ t ∈ above, decide (t ≠ .openParen) = true := fun t ht ↦
    decide_eq_true fun heq ↦ h (heq ▸ ht)
  rw [released, List.takeWhile_append_of_pos hall]
  exact List.append_nil above

/-- A closing parenthesis leaves what lies below the opening one, which goes with it. -/
theorem stillWaiting_closeParen :
    stillWaiting (above ++ .openParen :: below) .closeParen = below := by
  have hall : ∀ t ∈ above, decide (t ≠ .openParen) = true := fun t ht ↦
    decide_eq_true fun heq ↦ h (heq ▸ ht)
  rw [stillWaiting, List.dropWhile_append_of_pos hall]
  rfl

theorem orderFrom_closeParen (rest : List Token) :
    orderFrom (above ++ .openParen :: below) (.closeParen :: rest) =
      above ++ orderFrom below rest := by
  rw [orderFrom_cons, released_closeParen h, stillWaiting_closeParen h]

end

end PocketCalculator
