import PocketCalculator.Text.Digit

/-!
# The number at the end

The keypad looks at the number at the end of its line: the longest tail of the line that has the
form of a number. Digits of any script count here, because the rule is about the form alone.
-/

namespace PocketCalculator

/-! ## Longest tails -/

/-- The longest tail of a text that satisfies a predicate, after the part before it. -/
def splitTail? (p : Text → Bool) : Text → Option (Text × Text)
  | [] => if p [] then some ([], []) else none
  | c :: rest =>
    if p (c :: rest) then some ([], c :: rest)
    else (splitTail? p rest).map fun (before, tail) ↦ (c :: before, tail)

theorem append_of_splitTail? {p : Text → Bool} {text before tail : Text}
    (h : splitTail? p text = some (before, tail)) : before ++ tail = text := by
  induction text generalizing before with
  | nil =>
    unfold splitTail? at h
    split at h <;> cases h
    rfl
  | cons c rest ih =>
    unfold splitTail? at h
    split at h
    · cases h; rfl
    · obtain ⟨⟨before', tail'⟩, hrest, heq⟩ := Option.map_eq_some_iff.mp h
      cases heq
      exact congrArg (c :: ·) (ih hrest)

theorem holds_of_splitTail? {p : Text → Bool} {text before tail : Text}
    (h : splitTail? p text = some (before, tail)) : p tail = true := by
  induction text generalizing before with
  | nil =>
    unfold splitTail? at h
    split at h
    · cases h; assumption
    · cases h
  | cons c rest ih =>
    unfold splitTail? at h
    split at h
    · cases h; assumption
    · obtain ⟨⟨before', tail'⟩, hrest, heq⟩ := Option.map_eq_some_iff.mp h
      cases heq
      exact ih hrest

/-! ## The form of a number -/

/-- A text without the minus it may start with. -/
def dropMinus : Text → Text
  | '-' :: rest => rest
  | text => text

/-- Whether a text is empty or a point and digits. -/
def isFractionForm : Text → Bool
  | [] => true
  | c :: rest => c = '.' && rest.all isDecimalDigit

/-- Whether a text has the form of a number that may still be incomplete: perhaps a minus, then
digits with at most one point anywhere among them. -/
def isPartialNumber (text : Text) : Bool :=
  isFractionForm ((dropMinus text).dropWhile isDecimalDigit)

/-- Whether a text has the form of a complete number: in addition there is a digit before the
point. -/
def isCompleteNumber (text : Text) : Bool :=
  isPartialNumber text && ((dropMinus text).head?.any isDecimalDigit)

/-- The number at the end of a text, after the part before it. -/
def trailingNumber? (text : Text) : Option (Text × Text) :=
  splitTail? isCompleteNumber text

/-- The number at the end of a text, complete or not. -/
def trailingPartialNumber (text : Text) : Text :=
  match splitTail? isPartialNumber text with
  | some (_, tail) => tail
  | none => []

/-- There is always a number at the end that may be incomplete, if only an empty one. -/
theorem splitTail?_isPartialNumber (text : Text) :
    ∃ before, splitTail? isPartialNumber text = some (before, trailingPartialNumber text) := by
  unfold trailingPartialNumber
  have hsome : ∀ text, (splitTail? isPartialNumber text).isSome = true := by
    intro text
    induction text with
    | nil => rfl
    | cons c rest ih =>
      unfold splitTail?
      split
      · rfl
      · simpa using ih
  obtain ⟨⟨before, tail⟩, h⟩ := Option.isSome_iff_exists.mp (hsome text)
  exact ⟨before, by rw [h]⟩

end PocketCalculator
