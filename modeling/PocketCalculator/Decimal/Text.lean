import PocketCalculator.Decimal.Shortest

/-!
# The text of a number

A finite number is written as its shortest decimal in positional notation, whatever its size, so
that the text is again a numeral of the calculator: digits, at most one point among them, and
perhaps a minus in front. Both zeros are written `0`.
-/

namespace PocketCalculator.Binary64

def signText (negative : Bool) : Text :=
  if negative then ['-'] else []

def toText : Binary64 → Text
  | finite negative m =>
    if m = .zero then ['0'] else signText negative ++ m.shortest.toText
  | infinite negative => signText negative ++ ['i', 'n', 'f']
  | nan => ['N', 'a', 'N']

@[simp]
theorem toText_zero (negative : Bool) : (zero negative).toText = ['0'] := by
  rw [zero, toText, if_pos rfl]

theorem toText_finite {m : Magnitude} (h : m ≠ .zero) (negative : Bool) :
    (finite negative m).toText = signText negative ++ m.shortest.toText := by
  rw [toText, if_neg h]

@[simp]
theorem signText_false_append (text : Text) : signText false ++ text = text := rfl

@[simp]
theorem signText_true_append (text : Text) : signText true ++ text = '-' :: text := rfl

theorem toText_neg {m : Magnitude} (h : m ≠ .zero) :
    (finite true m).toText = '-' :: (finite false m).toText := by
  rw [toText_finite h, toText_finite h, signText_true_append, signText_false_append]

end PocketCalculator.Binary64
