import PocketCalculator.Text.Basic

/-!
# Lines

A line ends at a line feed, or where the input ends if something stands there. A carriage return
just before the line feed belongs to the line's end and not to the line.

The rule is stated for any alphabet, because it is applied to bytes before they are read as text.
-/

namespace PocketCalculator

/-- The lines of a sequence, without their ends. -/
def splitLines {α : Type} [DecidableEq α] (feed ret : α) : List α → List (List α)
  | [] => []
  | x :: rest =>
    if x = feed then [] :: splitLines feed ret rest
    else if x = ret ∧ rest.head? = some feed then splitLines feed ret rest
    else
      match splitLines feed ret rest with
      | [] => [[x]]
      | line :: lines => (x :: line) :: lines

@[simp]
theorem splitLines_feed {α : Type} [DecidableEq α] {feed ret : α} (rest : List α) :
    splitLines feed ret (feed :: rest) = [] :: splitLines feed ret rest := by
  rw [splitLines, if_pos rfl]

def textLines (text : Text) : List Text :=
  splitLines '\n' '\r' text

end PocketCalculator
