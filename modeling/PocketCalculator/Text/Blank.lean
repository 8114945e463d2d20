import PocketCalculator.Text.Basic

/-!
# Blanks

The characters with the Unicode property `White_Space`, and the two things the calculator does
with them: cutting them off both ends of a text and splitting a text at them.
-/

namespace PocketCalculator

/-- The characters with the property `White_Space`. -/
def blankClass : CharClass :=
  [(0x9, 0xd), (0x20, 0x20), (0x85, 0x85), (0xa0, 0xa0), (0x1680, 0x1680), (0x2000, 0x200a),
   (0x2028, 0x2029), (0x202f, 0x202f), (0x205f, 0x205f), (0x3000, 0x3000)]

def isBlank (c : Char) : Bool :=
  blankClass.contains c

/-! ## Cutting and splitting -/

/-- A text without the blanks it starts with. -/
def trimLeft (text : Text) : Text :=
  text.dropWhile isBlank

/-- A text without the blanks at either end. -/
def trim (text : Text) : Text :=
  (trimLeft (trimLeft text).reverse).reverse

/-- The maximal runs of characters that are no blanks, in order. -/
def words (text : Text) : List Text :=
  (text.splitOnP isBlank).filter (!·.isEmpty)

/-- A blank ends a word wherever it stands. -/
theorem words_append_blank {c : Char} (h : isBlank c = true) (before after : Text) :
    words (before ++ c :: after) = words before ++ words after := by
  rw [words, List.splitOnP_append_cons before after h, List.filter_append, words, words]

theorem words_of_forall_not_blank {word : Text} (hword : word ≠ [])
    (h : ∀ c ∈ word, isBlank c = false) : words word = [word] := by
  rw [words, List.splitOnP_eq_singleton h]
  simp [hword]

end PocketCalculator
