import PocketCalculator.Proofs.Calculation.Results

/-!
# Results in groups

A result that is shown in groups differs from its plain text in commas alone, and only before the
point: the digits there are divided into a first group of one to three and further groups of exactly
three (`IsGrouped`), while the sign and what follows these digits are the same (`IsGroupingOf`).

The digits are grouped from the right, where the definition begins. Each step of it cuts off one
group, and what is left when it stops is the first group.
-/

namespace PocketCalculator

open Binary64 (signText)

/-! ## Groups of digits -/

/-- Digits in groups: one to three digits, and then groups of three, each after a comma. -/
inductive IsGrouped : Text → Prop
  | first {digits : Text} (hne : digits ≠ []) (hlength : digits.length ≤ 3)
      (h : ∀ c ∈ digits, c.isDigit = true) : IsGrouped digits
  | group {text digits : Text} (htext : IsGrouped text) (hlength : digits.length = 3)
      (h : ∀ c ∈ digits, c.isDigit = true) : IsGrouped (text ++ ',' :: digits)

theorem isGrouped_reverse_groupReversed {digits : Text} (hne : digits ≠ [])
    (h : ∀ c ∈ digits, c.isDigit = true) : IsGrouped (groupReversed digits).reverse := by
  fun_induction groupReversed digits with
  | case1 a b c d rest ih =>
    have hsplit : (a :: b :: c :: ',' :: groupReversed (d :: rest)).reverse =
        (groupReversed (d :: rest)).reverse ++ ',' :: [c, b, a] := by simp
    rw [hsplit]
    refine .group (ih (List.cons_ne_nil d rest) fun e he ↦ h e (by simp [he])) rfl fun e he ↦ ?_
    refine h e ?_
    simp only [List.mem_cons, List.not_mem_nil, or_false] at he ⊢
    tauto
  | case2 digits hshort =>
    refine .first (by simpa using hne) ?_ fun c hc ↦ h c (List.mem_reverse.mp hc)
    rw [List.length_reverse]
    rcases digits with _ | ⟨a, _ | ⟨b, _ | ⟨c, _ | ⟨d, rest⟩⟩⟩⟩
    case cons.cons.cons.cons => exact absurd rfl (hshort a b c d rest)
    all_goals simp

theorem isGrouped_groupDigits {digits : Text} (hne : digits ≠ [])
    (h : ∀ c ∈ digits, c.isDigit = true) : IsGrouped (groupDigits digits) :=
  isGrouped_reverse_groupReversed (by simpa using hne) fun c hc ↦ h c (List.mem_reverse.mp hc)

theorem comma_notMem_of_isDigit {digits : Text} (h : ∀ c ∈ digits, c.isDigit = true) :
    ',' ∉ digits :=
  fun hcomma ↦ absurd (h ',' hcomma) (by decide)

theorem filter_groupDigits {digits : Text} (h : ',' ∉ digits) :
    (groupDigits digits).filter (· ≠ ',') = digits := by
  rw [groupDigits, List.filter_reverse, filter_groupReversed (by simpa using h),
    List.reverse_reverse]

/-! ## Numbers in groups -/

/-- Whether a text is nothing, or a point and digits. -/
def IsFraction (text : Text) : Prop :=
  text = [] ∨ ∃ digits, text = '.' :: digits ∧ ∀ c ∈ digits, c.isDigit = true

/-- Whether a text shows another one in groups. Both have the same sign and the same digits after the
point. The digits before the point are in groups, and without the commas they are those of the other
text. -/
inductive IsGroupingOf : Text → Text → Prop
  | intro (negative : Bool) {grouped fraction : Text} (hgrouped : IsGrouped grouped)
      (hfraction : IsFraction fraction) :
      IsGroupingOf (signText negative ++ (grouped ++ fraction))
        (signText negative ++ (grouped.filter (· ≠ ',') ++ fraction))

theorem IsFraction.comma_notMem {text : Text} (h : IsFraction text) : ',' ∉ text := by
  rcases h with rfl | ⟨digits, rfl, hdigits⟩
  · exact List.not_mem_nil
  · rw [List.mem_cons, not_or]
    exact ⟨by decide, comma_notMem_of_isDigit hdigits⟩

/-- Without the commas, a text in groups is the text that it shows. -/
theorem IsGroupingOf.filter_eq {shown plain : Text} (h : IsGroupingOf shown plain) :
    shown.filter (· ≠ ',') = plain := by
  obtain ⟨negative, hgrouped, hfraction⟩ := h
  have hsign : (signText negative).filter (· ≠ ',') = signText negative := by
    cases negative <;> rfl
  rw [List.filter_append, List.filter_append, hsign,
    filter_eq_self_of_comma_notMem hfraction.comma_notMem]

theorem groupUnsigned_append {digits fraction : Text} (h : ∀ c ∈ digits, c.isDigit = true)
    (hfraction : IsFraction fraction) :
    groupUnsigned (digits ++ fraction) = groupDigits digits ++ fraction := by
  have hpoint : ∀ c ∈ digits, decide (c ≠ '.') = true := fun c hc ↦ decide_ne_point (h c hc)
  rw [groupUnsigned, List.takeWhile_append_of_pos hpoint, List.dropWhile_append_of_pos hpoint]
  rcases hfraction with rfl | ⟨decimals, rfl, -⟩
  · exact congrArg (groupDigits · ++ []) (List.append_nil digits)
  · exact congrArg (groupDigits · ++ '.' :: decimals) (List.append_nil digits)

theorem groupNumber_signText_append {text : Text} (h : IsPositional text) (negative : Bool) :
    groupNumber (signText negative ++ text) = signText negative ++ groupUnsigned text := by
  cases negative with
  | true => rfl
  | false =>
    obtain ⟨c, rest, rfl, hc⟩ := h.exists_cons
    rw [Binary64.signText_false_append, Binary64.signText_false_append, groupNumber]
    rintro unsigned heq
    rw [(List.cons.inj heq).1] at hc
    exact absurd hc (by decide)

theorem IsPositional.exists_append {text : Text} (h : IsPositional text) :
    ∃ digits fraction, text = digits ++ fraction ∧ digits ≠ [] ∧
      (∀ c ∈ digits, c.isDigit = true) ∧ IsFraction fraction := by
  cases h with
  | whole hne h => exact ⟨text, [], (List.append_nil text).symm, hne, h, .inl rfl⟩
  | pointed hne h hfraction => exact ⟨_, _, rfl, hne, h, .inr ⟨_, rfl, hfraction⟩⟩

theorem isGroupingOf_groupNumber_toText {x : Binary64} (hx : x.isFinite = true) :
    IsGroupingOf (groupNumber x.toText) x.toText := by
  obtain ⟨negative, text, hpositional, htext⟩ := Binary64.exists_isPositional_toText hx
  obtain ⟨digits, fraction, rfl, hne, hdigits, hfraction⟩ := hpositional.exists_append
  have h := IsGroupingOf.intro negative (isGrouped_groupDigits hne hdigits) hfraction
  rwa [filter_groupDigits (comma_notMem_of_isDigit hdigits), ← groupUnsigned_append hdigits hfraction,
    ← groupNumber_signText_append hpositional, ← htext] at h

/-! ## Results -/

/-- **Grouping is decoration.** Whether or not results are shown in groups, a calculation has the
same value and the same plain text. What is shown is the plain text, or the plain text in groups,
which without the commas is the plain text again. -/
theorem isGroupingOf_display {places : ℕ} {grouping : Bool} {expression : Text} {value : Binary64}
    (h : (calculate ⟨places, grouping⟩ expression).value = some value) :
    (∀ grouping, (calculate ⟨places, grouping⟩ expression).value = some value ∧
        (calculate ⟨places, grouping⟩ expression).plain? = some value.toText) ∧
      (calculate ⟨places, false⟩ expression).display = value.toText ∧
      (calculate ⟨places, true⟩ expression).display.filter (· ≠ ',') = value.toText ∧
      IsGroupingOf (calculate ⟨places, true⟩ expression).display value.toText := by
  have hvalue : ∀ grouping, (calculate ⟨places, grouping⟩ expression).value = some value :=
    fun _ ↦ h
  have hplain : ∀ grouping,
      (calculate ⟨places, grouping⟩ expression).plain? = some value.toText := by
    intro grouping
    rw [Calculation.plain?, hvalue, Option.map_some]
  have hdisplay : (calculate ⟨places, true⟩ expression).display = groupNumber value.toText := by
    rw [Calculation.display, hplain]
    rfl
  have hgrouping := isGroupingOf_groupNumber_toText (isFinite_of_roundedValue? h)
  rw [hdisplay]
  refine ⟨fun grouping ↦ ⟨hvalue grouping, hplain grouping⟩, ?_, hgrouping.filter_eq, hgrouping⟩
  rw [Calculation.display, hplain]
  rfl

/-- `-1234.5` is shown as `-1,234.5`. -/
theorem isGroupingOf_display_negative :
    let expression : Text := ['-', '1', '2', '3', '4', '.', '5', '*', '1']
    ∃ value, (calculate ⟨12, true⟩ expression).value = some value ∧
      (calculate ⟨12, true⟩ expression).display = ['-', '1', ',', '2', '3', '4', '.', '5'] ∧
      IsGroupingOf (calculate ⟨12, true⟩ expression).display value.toText := by
  intro expression
  have h : (calculate ⟨12, true⟩ expression).value = some (.ofBits 0xc0934a0000000000) := by
    decide +kernel
  exact ⟨_, h, by decide +kernel, (isGroupingOf_display h).2.2.2⟩

end PocketCalculator
