/-!
# Text

A text is a list of Unicode scalar values. All reading and writing of this library is recursion
over such lists; strings occur only where a program meets the outside.

A *character class* is given by the ranges of code points it is made of, which is how the
Unicode standard publishes its properties.
-/

namespace PocketCalculator

/-- A text, as its characters in order. -/
abbrev Text := List Char

/-! ## Character classes -/

/-- A set of characters, as ranges of code points with both ends included. -/
abbrev CharClass := List (Nat × Nat)

/-- Whether a character lies in one of the ranges of a class. -/
def CharClass.contains (ranges : CharClass) (c : Char) : Bool :=
  ranges.any fun range ↦ range.1 ≤ c.toNat && c.toNat ≤ range.2

theorem CharClass.contains_iff {ranges : CharClass} {c : Char} :
    ranges.contains c = true ↔ ∃ range ∈ ranges, range.1 ≤ c.toNat ∧ c.toNat ≤ range.2 := by
  simp [CharClass.contains]

/-! ## Cutting a text where a class ends -/

theorem length_dropWhile_le (p : Char → Bool) (text : Text) :
    (text.dropWhile p).length ≤ text.length :=
  (List.dropWhile_sublist p).length_le

theorem takeWhile_dropWhile_eq_nil (f : Char → Bool) (text : Text) :
    (text.dropWhile f).takeWhile f = [] := by
  induction text with
  | nil => rfl
  | cons c text ih =>
    by_cases hc : f c = true
    · rwa [List.dropWhile_cons_of_pos hc]
    · rw [List.dropWhile_cons_of_neg hc, List.takeWhile_cons_of_neg hc]

section
variable {α : Type} {p : α → Bool} {a : α}

theorem takeWhile_append_cons (ha : p a = false) (before rest : List α) :
    (before ++ a :: rest).takeWhile p = before.takeWhile p := by
  induction before with
  | nil => exact List.takeWhile_cons_of_neg (by simp [ha])
  | cons b before ih => rw [List.cons_append, List.takeWhile_cons, List.takeWhile_cons, ih]

theorem dropWhile_append_cons (ha : p a = false) (before rest : List α) :
    (before ++ a :: rest).dropWhile p = before.dropWhile p ++ a :: rest := by
  induction before with
  | nil => exact List.dropWhile_cons_of_neg (by simp [ha])
  | cons b before ih =>
    rw [List.cons_append, List.dropWhile_cons, List.dropWhile_cons, ih]
    split <;> rfl

end

end PocketCalculator
