import Mathlib.Data.List.TakeWhile
import PocketCalculator.Expression.Order

/-!
# What the postfix order keeps

Putting tokens into postfix order moves them between the input, the stack and the output. Here is
what can be said of the output from the input alone, for every list of tokens, balanced or not.
-/

namespace PocketCalculator

/-! ## Nothing is invented -/

theorem mem_of_mem_released {waiting : List Token} {token t : Token}
    (h : t ∈ released waiting token) : t = token ∨ t ∈ waiting := by
  cases token with
  | number text => exact .inl (List.mem_singleton.mp h)
  | operator op => exact .inr ((List.takeWhile_sublist _).subset h)
  | openParen => exact absurd h List.not_mem_nil
  | closeParen => exact .inr ((List.takeWhile_sublist _).subset h)

theorem mem_of_mem_stillWaiting {waiting : List Token} {token t : Token}
    (h : t ∈ stillWaiting waiting token) : t = token ∨ t ∈ waiting := by
  cases token with
  | number text => exact .inr h
  | operator op =>
    rcases List.mem_cons.mp h with rfl | h
    · exact .inl rfl
    · exact .inr ((List.dropWhile_sublist _).subset h)
  | openParen => exact List.mem_cons.mp h
  | closeParen => exact .inr ((List.dropWhile_sublist _).subset (List.mem_of_mem_tail h))

theorem mem_of_mem_orderFrom {tokens : List Token} {t : Token} :
    ∀ {waiting : List Token}, t ∈ orderFrom waiting tokens → t ∈ waiting ∨ t ∈ tokens := by
  induction tokens with
  | nil => exact fun h ↦ .inl h
  | cons token rest ih =>
    intro waiting h
    rw [orderFrom_cons, List.mem_append] at h
    rcases h with h | h
    · rcases mem_of_mem_released h with rfl | h
      · exact .inr List.mem_cons_self
      · exact .inl h
    · rcases ih h with h | h
      · rcases mem_of_mem_stillWaiting h with rfl | h
        · exact .inr List.mem_cons_self
        · exact .inl h
      · exact .inr (List.mem_cons_of_mem _ h)

theorem mem_of_mem_postfixOrder {tokens : List Token} {t : Token}
    (h : t ∈ postfixOrder tokens) : t ∈ tokens :=
  (mem_of_mem_orderFrom h).resolve_left List.not_mem_nil

/-! ## Unclosed parentheses -/

/-- How many parentheses are open after a token when `opened` were open before. A closing
parenthesis closes the innermost one, and without one it closes nothing. -/
def openedAfter (opened : Nat) : Token → Nat
  | .openParen => opened + 1
  | .closeParen => opened - 1
  | .number _ | .operator _ => opened

/-- How many parentheses are never closed. -/
def unclosed (tokens : List Token) : Nat :=
  tokens.foldl openedAfter 0

theorem count_openParen_released (waiting : List Token) (token : Token) :
    (released waiting token).count .openParen = 0 := by
  rw [List.count_eq_zero]
  intro hmem
  cases token with
  | number text => exact Token.noConfusion (List.mem_singleton.mp hmem)
  | openParen => exact List.not_mem_nil hmem
  | operator op =>
    have hreleased := List.mem_takeWhile_imp hmem
    exact Bool.false_ne_true hreleased
  | closeParen =>
    have hreleased := List.mem_takeWhile_imp hmem
    exact of_decide_eq_true hreleased rfl

theorem eq_openParen_of_dropWhile {waiting below : List Token} {t : Token}
    (h : waiting.dropWhile (· ≠ .openParen) = t :: below) : t = .openParen := by
  have ht := List.head?_dropWhile_not (· ≠ Token.openParen) waiting
  rw [h] at ht
  simpa using ht

theorem count_openParen_stillWaiting (waiting : List Token) (token : Token) :
    (stillWaiting waiting token).count .openParen =
      openedAfter (waiting.count .openParen) token := by
  -- what is dropped from the stack is what is released, so no parenthesis is dropped with it
  have hdrop : ∀ p : Token → Bool, (waiting.takeWhile p).count .openParen = 0 →
      (waiting.dropWhile p).count .openParen = waiting.count .openParen := by
    intro p htake
    have hsplit := congrArg (List.count Token.openParen)
      (List.takeWhile_append_dropWhile (p := p) (l := waiting))
    rwa [List.count_append, htake, Nat.zero_add] at hsplit
  have hreleased := count_openParen_released waiting token
  cases token with
  | number text => rfl
  | openParen => exact List.count_cons_self
  | operator op =>
    rw [stillWaiting, openedAfter, List.count_cons_of_ne (by simp), hdrop _ hreleased]
  | closeParen =>
    rw [stillWaiting, openedAfter, ← hdrop _ hreleased]
    cases hrest : waiting.dropWhile (· ≠ .openParen) with
    | nil => rfl
    | cons t below =>
      rw [eq_openParen_of_dropWhile hrest, List.tail_cons, List.count_cons_self,
        Nat.add_sub_cancel]

/-- As long as no parenthesis is closed that is not open, those that wait are those that have been
opened less those that have been closed. -/
theorem count_openParen_stillWaiting_add {waiting : List Token} {token : Token}
    (h : token = .closeParen → .openParen ∈ waiting) :
    (stillWaiting waiting token).count .openParen + [token].count .closeParen =
      waiting.count .openParen + [token].count .openParen := by
  rw [count_openParen_stillWaiting]
  cases token with
  | number _ | operator _ | openParen => rfl
  | closeParen => exact Nat.sub_add_cancel (List.count_pos_iff.mpr (h rfl))

/-- The parentheses that wait are those that are open, and those that are never closed come out. -/
theorem count_openParen_orderFrom (tokens : List Token) :
    ∀ waiting : List Token,
      (orderFrom waiting tokens).count .openParen =
        tokens.foldl openedAfter (waiting.count .openParen) := by
  induction tokens with
  | nil => exact fun _ ↦ rfl
  | cons token rest ih =>
    intro waiting
    rw [orderFrom_cons, List.count_append, count_openParen_released, Nat.zero_add, ih,
      count_openParen_stillWaiting, List.foldl_cons]

theorem count_openParen_postfixOrder (tokens : List Token) :
    (postfixOrder tokens).count .openParen = unclosed tokens :=
  count_openParen_orderFrom tokens []

/-! ## Nothing else is lost

Opening parentheses apart, what a token releases and what it leaves on the stack are together what
was there before and the token itself. Only a closing parenthesis goes nowhere. -/

section
variable {p : Token → Bool}

theorem countP_released_add_countP_stillWaiting (hopen : p .openParen = false)
    (waiting : List Token) (token : Token) :
    (released waiting token).countP p + (stillWaiting waiting token).countP p =
      waiting.countP p + ([token].filter (· ≠ .closeParen)).countP p := by
  have hsplit : ∀ q : Token → Bool,
      (waiting.takeWhile q).countP p + (waiting.dropWhile q).countP p = waiting.countP p := by
    intro q
    rw [← List.countP_append, List.takeWhile_append_dropWhile]
  cases token with
  | number text => exact Nat.add_comm _ _
  | openParen => simp [released, stillWaiting, hopen]
  | operator op =>
    rw [released, stillWaiting, List.countP_cons, ← Nat.add_assoc, hsplit]
    simp [List.countP_cons]
  | closeParen =>
    rw [released, stillWaiting, ← hsplit (· ≠ .openParen)]
    cases hrest : waiting.dropWhile (· ≠ .openParen) with
    | nil => rfl
    | cons t below =>
      rw [eq_openParen_of_dropWhile hrest, List.tail_cons,
        List.countP_cons_of_neg (by simp [hopen])]
      rfl

theorem countP_orderFrom (hopen : p .openParen = false) (tokens : List Token) :
    ∀ waiting : List Token,
      (orderFrom waiting tokens).countP p =
        waiting.countP p + (tokens.filter (· ≠ .closeParen)).countP p := by
  induction tokens with
  | nil => exact fun _ ↦ rfl
  | cons token rest ih =>
    intro waiting
    have hsplit : (token :: rest).filter (· ≠ .closeParen) =
        [token].filter (· ≠ .closeParen) ++ rest.filter (· ≠ .closeParen) :=
      List.filter_append [token] rest
    rw [orderFrom_cons, List.countP_append, ih, ← Nat.add_assoc,
      countP_released_add_countP_stillWaiting hopen, hsplit, List.countP_append, Nat.add_assoc]

theorem countP_postfixOrder (hopen : p .openParen = false) (tokens : List Token) :
    (postfixOrder tokens).countP p = (tokens.filter (· ≠ .closeParen)).countP p := by
  rw [postfixOrder, countP_orderFrom hopen, List.countP_nil, Nat.zero_add]

theorem countP_postfixOrder_of_not_paren (hopen : p .openParen = false)
    (hclose : p .closeParen = false) (tokens : List Token) :
    (postfixOrder tokens).countP p = tokens.countP p := by
  rw [countP_postfixOrder hopen, List.countP_filter]
  refine List.countP_congr fun t _ ↦ ?_
  cases t <;> simp [hclose]

end

theorem closeParen_notMem_postfixOrder (tokens : List Token) :
    .closeParen ∉ postfixOrder tokens := by
  rw [← List.count_eq_zero, List.count, countP_postfixOrder rfl, List.countP_filter,
    List.countP_eq_zero]
  intro t _ ht
  simp at ht

end PocketCalculator
