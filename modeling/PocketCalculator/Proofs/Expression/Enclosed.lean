import Mathlib.Data.List.Infix
import PocketCalculator.Proofs.Expression.Conservation

/-!
# What parentheses enclose

A group in parentheses acts as one operand: it comes out where a number in its place would come out,
in its own postfix order and in one piece. The expression around it may be anything, with operators
that wait and with parentheses that match nothing, and so may the group, as long as its own
parentheses match one another (`IsBalanced`).

## Why

No operator releases a parenthesis. So while a group is read, all goes on above the parenthesis that
opens it as it would on an empty stack (`released_append_openParen`). What waits there at the end of
the group is what the end of all input would release, and the closing parenthesis releases just
that (`orderFrom_append_closeParen`).
-/

namespace PocketCalculator

/-! ## Ordering a part

What follows a part of a list of tokens finds the stack that the part leaves, and has no other
influence on what came out before. -/

/-- What tokens send out while more is to come. -/
def releasedAlong (waiting : List Token) : List Token → List Token
  | [] => []
  | token :: rest => released waiting token ++ releasedAlong (stillWaiting waiting token) rest

/-- What waits after several tokens. -/
def waitingAfter (waiting tokens : List Token) : List Token :=
  tokens.foldl stillWaiting waiting

theorem orderFrom_append (waiting before after : List Token) :
    orderFrom waiting (before ++ after) =
      releasedAlong waiting before ++ orderFrom (waitingAfter waiting before) after := by
  induction before generalizing waiting with
  | nil => rfl
  | cons token rest ih =>
    rw [List.cons_append, orderFrom_cons, ih, releasedAlong, List.append_assoc, waitingAfter,
      waitingAfter, List.foldl_cons]

/-! ## Above an opening parenthesis -/

section
variable {above : List Token} (below : List Token) {token : Token}

/-- Above an opening parenthesis, a token does what it would do if nothing were below, unless it
closes that parenthesis. -/
theorem released_append_openParen (h : token = .closeParen → .openParen ∈ above) :
    released (above ++ .openParen :: below) token = released above token ∧
      stillWaiting (above ++ .openParen :: below) token =
        stillWaiting above token ++ .openParen :: below := by
  cases token with
  | number text | openParen => exact ⟨rfl, rfl⟩
  | operator op =>
    rw [released, stillWaiting, takeWhile_append_cons rfl, dropWhile_append_cons rfl]
    exact ⟨rfl, rfl⟩
  | closeParen =>
    -- the parenthesis that is closed lies above the other one
    obtain ⟨first, rest, rfl, hfirst⟩ := List.eq_append_cons_of_mem (h rfl)
    rw [List.append_assoc, List.cons_append, released_closeParen hfirst,
      released_closeParen hfirst, stillWaiting_closeParen hfirst, stillWaiting_closeParen hfirst]
    exact ⟨rfl, rfl⟩

end

/-- **Enclosed tokens.** Tokens that are read above an opening parenthesis, and close all that is
open above it but not the parenthesis itself, come out when it is closed as they come out by
themselves, and leave what lies below it. -/
theorem orderFrom_append_closeParen (above below rest : List Token) {tokens : List Token}
    (hle : ∀ part, part <+: tokens →
      part.count .closeParen ≤ above.count .openParen + part.count .openParen)
    (heq : tokens.count .closeParen = above.count .openParen + tokens.count .openParen) :
    orderFrom (above ++ .openParen :: below) (tokens ++ .closeParen :: rest) =
      orderFrom above tokens ++ orderFrom below rest := by
  induction tokens generalizing above with
  | nil =>
    have habove : Token.openParen ∉ above := by
      rw [← List.count_eq_zero]
      exact heq.symm
    exact orderFrom_closeParen habove below rest
  | cons token tokens ih =>
    have hopen : token = .closeParen → .openParen ∈ above := by
      rintro rfl
      have hone := hle [.closeParen] ⟨tokens, rfl⟩
      rw [← List.count_pos_iff]
      exact hone
    obtain ⟨hreleased, hwaiting⟩ := released_append_openParen below hopen
    -- what is open above changes as the counts of what has been read do
    have hcount := count_openParen_stillWaiting_add hopen
    have hsplit : ∀ (t : Token) (part : List Token),
        (token :: part).count t = [token].count t + part.count t := by
      intro t part
      rw [← List.count_append, List.singleton_append]
    rw [List.cons_append, orderFrom_cons, hreleased, hwaiting, ih, orderFrom_cons,
      List.append_assoc]
    · intro part hpart
      have hmore := hle (token :: part) (List.cons_prefix_cons.mpr ⟨rfl, hpart⟩)
      rw [hsplit .closeParen part, hsplit .openParen part] at hmore
      omega
    · rw [hsplit .closeParen tokens, hsplit .openParen tokens] at heq
      omega

/-! ## Balanced lists -/

/-- Whether the parentheses of a list of tokens match one another. -/
structure IsBalanced (tokens : List Token) : Prop where
  /-- None is closed that has not been opened. -/
  count_le : ∀ part, part <+: tokens → part.count .closeParen ≤ part.count .openParen
  /-- None stays open. -/
  count_eq : tokens.count .openParen = tokens.count .closeParen

instance (tokens : List Token) : Decidable (IsBalanced tokens) :=
  decidable_of_iff
    ((∀ part ∈ tokens.inits, part.count .closeParen ≤ part.count .openParen) ∧
      tokens.count .openParen = tokens.count .closeParen)
    ⟨fun h ↦ ⟨fun part hpart ↦ h.1 part ((List.mem_inits part tokens).mpr hpart), h.2⟩,
      fun h ↦ ⟨fun part hpart ↦ h.count_le part ((List.mem_inits part tokens).mp hpart),
        h.count_eq⟩⟩

theorem IsBalanced.orderFrom_group {tokens : List Token} (h : IsBalanced tokens)
    (waiting rest : List Token) :
    orderFrom waiting (.openParen :: (tokens ++ .closeParen :: rest)) =
      postfixOrder tokens ++ orderFrom waiting rest := by
  rw [orderFrom_openParen]
  refine orderFrom_append_closeParen [] waiting rest ?_ ?_
  · intro part hpart
    rw [List.count_nil, Nat.zero_add]
    exact h.count_le part hpart
  · rw [List.count_nil, Nat.zero_add, h.count_eq]

/-- **A group is one operand.** Whatever stands before and after an operand, it comes out between the
same tokens if it is a number and if it is a group, the number as it is and the group in its own
postfix order. So parentheses around the whole change nothing. -/
theorem postfixOrder_group (before after : List Token) :
    (∃ first last : List Token,
      (∀ text, postfixOrder (before ++ [.number text] ++ after) = first ++ [.number text] ++ last) ∧
      ∀ group, IsBalanced group →
        postfixOrder (before ++ [.openParen] ++ group ++ [.closeParen] ++ after) =
          first ++ postfixOrder group ++ last) ∧
    ∀ group, IsBalanced group →
      postfixOrder ([.openParen] ++ group ++ [.closeParen]) = postfixOrder group := by
  refine ⟨⟨releasedAlong [] before, orderFrom (waitingAfter [] before) after, ?_, ?_⟩, ?_⟩
  · intro text
    rw [postfixOrder, List.append_assoc, orderFrom_append, List.singleton_append,
      orderFrom_number, List.append_assoc, List.singleton_append]
  · intro group hgroup
    have htokens : before ++ [.openParen] ++ group ++ [.closeParen] ++ after =
        before ++ .openParen :: (group ++ .closeParen :: after) := by
      simp
    rw [postfixOrder, htokens, orderFrom_append, hgroup.orderFrom_group, List.append_assoc]
  · intro group hgroup
    have hwhole := hgroup.orderFrom_group [] []
    rw [orderFrom_nil, List.append_nil] at hwhole
    exact hwhole

/-- In `2*(3+(*)))-(5`, the group `3+(*)` comes out where `7` comes out in `2*7)-(5`. -/
theorem postfixOrder_malformed_group :
    let before : List Token := [.number ['2'], .operator .multiply]
    let after : List Token := [.closeParen, .operator .subtract, .openParen, .number ['5']]
    let group : List Token :=
      [.number ['3'], .operator .add, .openParen, .operator .multiply, .closeParen]
    IsBalanced group ∧
      ∃ first last, postfixOrder (before ++ [.number ['7']] ++ after) =
          first ++ [.number ['7']] ++ last ∧
        postfixOrder (before ++ [.openParen] ++ group ++ [.closeParen] ++ after) =
          first ++ postfixOrder group ++ last := by
  intro before after group
  have hgroup : IsBalanced group := by decide
  obtain ⟨first, last, hnumber, henclosed⟩ := (postfixOrder_group before after).1
  exact ⟨hgroup, first, last, hnumber ['7'], henclosed group hgroup⟩

end PocketCalculator
