import Mathlib.Data.List.DropRight
import PocketCalculator.Keypad.Basic
import PocketCalculator.Proofs.Keypad.Trailing

/-!
# The point of the number at the end

A point that is typed is left out if the number at the end of the line has one. That number is the
longest tail of the line that has a certain form (`IsOpenNumber`), and the form allows for one point
only. A line that ends in digits with several points, such as `1.2.3`, therefore has not all of them
in the number at its end.

Still, digits and points are all that one has to look at. Whatever stands in front of the last point
of a line, the tail that begins with this point has the form if only digits follow, and the longest
tail of the form contains it (`dot_mem_trailingPartialNumber_iff`). A minus in front of the number
makes no difference, since it may stand at the start of the number alone.
-/

namespace PocketCalculator

open Binary64 (signText)

/-! ## Longest tails of a form -/

/-- Whether a tail of a text is its longest one of a form: it has the form, and every other tail that
has the form starts further to the right. -/
structure IsLongestTail (form : Text → Prop) (text tail : Text) : Prop where
  suffix : tail <:+ text
  holds : form tail
  longest : ∀ other, other <:+ text → form other → other <:+ tail

theorem isLongestTail_of_splitTail? {f : Text → Bool} {text before tail : Text}
    (h : splitTail? f text = some (before, tail)) : IsLongestTail (f · = true) text tail := by
  refine ⟨⟨before, append_of_splitTail? h⟩, holds_of_splitTail? h, fun other hother hf ↦ ?_⟩
  induction text generalizing before with
  | nil =>
    rw [List.suffix_nil.mp hother]
    exact List.nil_suffix
  | cons c rest ih =>
    unfold splitTail? at h
    split at h
    · cases h
      exact hother
    · next hhere =>
      obtain ⟨⟨before', tail'⟩, hrest, heq⟩ := Option.map_eq_some_iff.mp h
      cases heq
      rcases List.suffix_cons_iff.mp hother with rfl | hother
      · exact absurd hf hhere
      · exact ih hrest hother

theorem isLongestTail_rtakeWhile (p : Char → Bool) (text : Text) :
    IsLongestTail (∀ c ∈ ·, p c = true) text (text.rtakeWhile p) := by
  refine ⟨List.rtakeWhile_suffix p text, fun c ↦ List.mem_rtakeWhile_imp, ?_⟩
  rintro other ⟨before, rfl⟩ hother
  rw [List.rtakeWhile, List.reverse_append,
    List.takeWhile_append_of_pos fun c hc ↦ hother c (List.mem_reverse.mp hc), List.reverse_append,
    List.reverse_reverse]
  exact List.suffix_append _ other

/-! ## The form of a number -/

/-- A text of the form of a number that may still be incomplete: perhaps a minus, then digits, and
then perhaps a point and digits. -/
inductive IsOpenNumber : Text → Prop
  | whole (negative : Bool) {digits : Text} (h : ∀ c ∈ digits, isDecimalDigit c = true) :
      IsOpenNumber (signText negative ++ digits)
  | pointed (negative : Bool) {digits fraction : Text}
      (h : ∀ c ∈ digits, isDecimalDigit c = true)
      (hfraction : ∀ c ∈ fraction, isDecimalDigit c = true) :
      IsOpenNumber (signText negative ++ (digits ++ '.' :: fraction))

/-- The form is what the keypad looks for. -/
theorem isPartialNumber_iff {text : Text} : isPartialNumber text = true ↔ IsOpenNumber text := by
  constructor
  · intro h
    obtain ⟨negative, htext⟩ := exists_signText_append_dropMinus text
    have hsplit := List.takeWhile_append_dropWhile (p := isDecimalDigit) (l := dropMinus text)
    have hdigits : ∀ c ∈ (dropMinus text).takeWhile isDecimalDigit, isDecimalDigit c = true :=
      fun c ↦ List.mem_takeWhile_imp
    rw [isPartialNumber] at h
    rw [htext, ← hsplit]
    cases hrest : (dropMinus text).dropWhile isDecimalDigit with
    | nil =>
      rw [List.append_nil]
      exact .whole negative hdigits
    | cons c fraction =>
      rw [hrest] at h
      obtain ⟨hpoint, hfraction⟩ := Bool.and_eq_true_iff.mp h
      rw [of_decide_eq_true hpoint]
      exact .pointed negative hdigits (List.all_eq_true.mp hfraction)
  · rintro (@⟨negative, digits, h⟩ | @⟨negative, digits, fraction, h, hfraction⟩)
    · rw [isPartialNumber, dropMinus_signText_append negative fun hminus ↦
        absurd (h '-' hminus) (by decide), List.dropWhile_eq_nil_iff.mpr h]
      rfl
    · have hminus : '-' ∉ digits ++ '.' :: fraction := by
        rw [List.mem_append, List.mem_cons]
        rintro (hminus | hminus | hminus)
        · exact absurd (h '-' hminus) (by decide)
        · exact absurd hminus (by decide)
        · exact absurd (hfraction '-' hminus) (by decide)
      rw [isPartialNumber, dropMinus_signText_append negative hminus,
        List.dropWhile_append_of_pos h, List.dropWhile_cons_of_neg (by decide)]
      exact List.all_eq_true.mpr hfraction

theorem isLongestTail_trailingPartialNumber (text : Text) :
    IsLongestTail IsOpenNumber text (trailingPartialNumber text) := by
  obtain ⟨before, h⟩ := splitTail?_isPartialNumber text
  simpa only [isPartialNumber_iff] using isLongestTail_of_splitTail? h

/-! ## The last point -/

/-- The digits and points at the end of a text. -/
def trailingRun (text : Text) : Text :=
  text.rtakeWhile fun c ↦ isDecimalDigit c || c = '.'

theorem isLongestTail_trailingRun (text : Text) :
    IsLongestTail (∀ c ∈ ·, isDecimalDigit c = true ∨ c = '.') text (trailingRun text) := by
  simpa only [trailingRun, Bool.or_eq_true, decide_eq_true_eq] using
    isLongestTail_rtakeWhile (fun c ↦ isDecimalDigit c || c = '.') text

theorem exists_last_dot {text : Text} (h : '.' ∈ text) :
    ∃ fraction, '.' :: fraction <:+ text ∧ '.' ∉ fraction := by
  obtain ⟨after, before, hreverse, hlast⟩ := List.eq_append_cons_of_mem (List.mem_reverse.mpr h)
  refine ⟨after.reverse, ⟨before.reverse, ?_⟩, fun hdot ↦ hlast (List.mem_reverse.mp hdot)⟩
  rw [← text.reverse_reverse, hreverse, List.reverse_append, List.reverse_cons, List.append_assoc,
    List.singleton_append]

/-- **The number at the end has a point** exactly if there is one among the digits and points at the
end. -/
theorem dot_mem_trailingPartialNumber_iff {text : Text} :
    '.' ∈ trailingPartialNumber text ↔ '.' ∈ trailingRun text := by
  have hnumber := isLongestTail_trailingPartialNumber text
  have hrun := isLongestTail_trailingRun text
  constructor
  · -- without its minus, the number lies within the digits and points
    intro hdot
    have hsuffix := (dropMinus_suffix (trailingPartialNumber text)).trans hnumber.suffix
    have hchars : ∀ c ∈ dropMinus (trailingPartialNumber text), isDecimalDigit c = true ∨ c = '.' :=
      fun c ↦ isDecimalDigit_or_eq_of_mem (isPartialNumber_iff.mpr hnumber.holds)
    exact (hrun.longest _ hsuffix hchars).mem (mem_dropMinus hdot (by decide))
  · -- what begins with the last point has the form of a number
    intro hdot
    obtain ⟨fraction, hsuffix, hlast⟩ := exists_last_dot hdot
    have hfraction : ∀ c ∈ fraction, isDecimalDigit c = true := by
      intro c hc
      refine (hrun.holds c (hsuffix.mem (List.mem_cons_of_mem _ hc))).resolve_right ?_
      rintro rfl
      exact hlast hc
    have hform : IsOpenNumber ('.' :: fraction) :=
      .pointed false (List.forall_mem_nil _) hfraction
    exact (hnumber.longest _ (hsuffix.trans hrun.suffix) hform).mem List.mem_cons_self

/-- In `-1..5` the number at the end is `.5`. -/
example : trailingPartialNumber ['-', '1', '.', '.', '5'] = ['.', '5'] ∧
    trailingRun ['-', '1', '.', '.', '5'] = ['1', '.', '.', '5'] := by
  decide

/-! ## Typing a point -/

/-- Whether a number may start at the end of a text: nothing stands there yet, or an opening
parenthesis, or an operator. -/
def AwaitsNumber (text : Text) : Prop :=
  text = [] ∨ ∃ c, text.getLast? = some c ∧ (c = '(' ∨ ∃ op : Operator, c = op.symbol)

theorem startsNumber_eq_true_iff {text : Text} :
    Keypad.startsNumber text = true ↔ AwaitsNumber text := by
  rcases List.eq_nil_or_concat' text with rfl | ⟨before, c, rfl⟩
  · exact iff_of_true rfl (.inl rfl)
  · simp [Keypad.startsNumber, AwaitsNumber, Operator.isSymbol_iff]

instance : DecidablePred AwaitsNumber := fun _ ↦ decidable_of_iff _ startsNumber_eq_true_iff

theorem typeDot_eq (text : Text) :
    Keypad.typeDot text = text ++
      if '.' ∈ trailingRun text then [] else if AwaitsNumber text then ['0', '.'] else ['.'] := by
  simp only [Keypad.typeDot, dot_mem_trailingPartialNumber_iff, startsNumber_eq_true_iff]
  split_ifs
  · exact (List.append_nil text).symm
  · rfl
  · rfl

theorem typeDot_eq_self_iff {text : Text} :
    Keypad.typeDot text = text ↔ '.' ∈ trailingRun text := by
  rw [typeDot_eq, List.append_right_eq_self]
  split_ifs with hdot
  · exact iff_of_true rfl hdot
  · exact iff_of_false not_false hdot
  · exact iff_of_false not_false hdot

/-- **Typing a point.** After any text, a point is left out exactly if there is one among the digits
and points at the end, or, what is the same, in the number at the end. Otherwise it is all that is
appended, except that a number which starts with it gets a zero first. -/
theorem press_dot_eq (places : ℕ) (keypad : Keypad) :
    IsLongestTail IsOpenNumber keypad.expression (trailingPartialNumber keypad.expression) ∧
      IsLongestTail (∀ c ∈ ·, isDecimalDigit c = true ∨ c = '.') keypad.expression
        (trailingRun keypad.expression) ∧
      ('.' ∈ trailingPartialNumber keypad.expression ↔ '.' ∈ trailingRun keypad.expression) ∧
      ((keypad.press places .dot).expression = keypad.expression ↔
        '.' ∈ trailingRun keypad.expression) ∧
      keypad.press places .dot =
        { keypad with
          expression := keypad.expression ++
            if '.' ∈ trailingRun keypad.expression then []
            else if AwaitsNumber keypad.expression then ['0', '.']
            else ['.'] } := by
  refine ⟨isLongestTail_trailingPartialNumber _, isLongestTail_trailingRun _,
    dot_mem_trailingPartialNumber_iff, typeDot_eq_self_iff, ?_⟩
  rw [Keypad.press, typeDot_eq]

end PocketCalculator
