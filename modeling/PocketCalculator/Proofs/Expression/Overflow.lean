import PocketCalculator.Proofs.Binary64.Operations
import PocketCalculator.Proofs.Decimal.ReadBack

/-!
# Overflow

A literal may have so many digits that it is read as an infinity, and an operation may have a result
that is too large for a finite number. Nobody looks at either: only the value of the whole
expression must be finite. So what becomes of an infinity on the way to the whole decides whether it
is noticed.

## Where an infinity is lost

An operand that is not finite makes the result of an operation not finite either, with one
exception: a finite number divided by an infinity is a zero (`Operator.Hides`). What stands in such a
divisor makes no difference to the value. Everything else does, so an expression has no value
exactly if a failure stands in it outside of all such divisors
(`roundedValue?_eq_none_iff_failsOpenly`). An overflow within one is not noticed, and `1 / ∞` is `0`.
-/

namespace PocketCalculator

/-! ## One operation -/

def Binary64.isInfinite : Binary64 → Bool
  | infinite _ => true
  | _ => false

theorem Binary64.isInfinite_iff {x : Binary64} : x.isInfinite = true ↔ ∃ s, x = infinite s := by
  cases x <;> simp [isInfinite]

theorem Binary64.isFinite_of_isInfinite {x : Binary64} (h : x.isInfinite = true) :
    x.isFinite = false := by
  obtain ⟨s, rfl⟩ := isInfinite_iff.mp h
  rfl

namespace Operator

variable {op : Operator} {a b : Binary64}

/-- Whether an operation has a finite result although its right operand is not finite: a finite
number is divided by an infinity. -/
def Hides (op : Operator) (a b : Binary64) : Prop :=
  op = .divide ∧ a.isFinite = true ∧ b.isInfinite = true

theorem isFinite_apply_of_hides (h : op.Hides a b) : (op.apply a b).isFinite = true := by
  obtain ⟨rfl, ha, hb⟩ := h
  obtain ⟨s, m, rfl⟩ := Binary64.isFinite_iff.mp ha
  obtain ⟨t, rfl⟩ := Binary64.isInfinite_iff.mp hb
  rfl

theorem not_hides_of_sum (hop : op = .add ∨ op = .subtract) : ¬ op.Hides a b := by
  rintro ⟨rfl, -, -⟩
  rcases hop with hop | hop <;> exact Operator.noConfusion hop

/-- An operation with a finite result has finite operands, or hides the right one. -/
theorem isFinite_of_isFinite_apply (h : (op.apply a b).isFinite = true) :
    a.isFinite = true ∧ (b.isFinite = true ∨ op.Hides a b) := by
  cases op with
  | add =>
    obtain ⟨ha, hb⟩ := Binary64.isFinite_of_add h
    exact ⟨ha, .inl hb⟩
  | subtract =>
    obtain ⟨ha, hb⟩ := Binary64.isFinite_of_add h
    exact ⟨ha, .inl (by rwa [Binary64.isFinite_neg] at hb)⟩
  | multiply =>
    obtain ⟨ha, hb⟩ := Binary64.isFinite_of_mul h
    exact ⟨ha, .inl hb⟩
  | divide =>
    rw [apply] at h
    split_ifs at h
    · exact absurd h Bool.false_ne_true
    · obtain ⟨ha, hb⟩ := Binary64.isFinite_of_div h
      refine ⟨ha, ?_⟩
      cases b with
      | finite t n => exact .inl rfl
      | infinite t => exact .inr ⟨rfl, ha, rfl⟩
      | nan => exact absurd rfl hb

end Operator

/-! ## Parts of a phrase -/

namespace Phrase

variable {k l : PhraseKind}

/-- A phrase stands in another one if it is that one or stands in what that one is made of. What
stands in the right operand of an operation counts only if `enters` holds of the operation and of
the values of its operands. -/
inductive StandsIn (enters : Operator → Binary64 → Binary64 → Prop) :
    {k l : PhraseKind} → Phrase k → Phrase l → Prop
  | refl {k : PhraseKind} (e : Phrase k) : StandsIn enters e e
  | group {k : PhraseKind} {s : Phrase k} {e : Phrase .sum} (h : StandsIn enters s e) :
      StandsIn enters s (.group e)
  | ofFactor {k : PhraseKind} {s : Phrase k} {f : Phrase .factor} (h : StandsIn enters s f) :
      StandsIn enters s (.ofFactor f)
  | ofProduct {k : PhraseKind} {s : Phrase k} {t : Phrase .product} (h : StandsIn enters s t) :
      StandsIn enters s (.ofProduct t)
  | productLeft {k : PhraseKind} {s : Phrase k} {t : Phrase .product} {op : Operator}
      {hop : op = .multiply ∨ op = .divide} {f : Phrase .factor} (h : StandsIn enters s t) :
      StandsIn enters s (.product t op hop f)
  | productRight {k : PhraseKind} {s : Phrase k} {t : Phrase .product} {op : Operator}
      {hop : op = .multiply ∨ op = .divide} {f : Phrase .factor} (h : StandsIn enters s f)
      (henters : enters op t.value f.value) : StandsIn enters s (.product t op hop f)
  | sumLeft {k : PhraseKind} {s : Phrase k} {e : Phrase .sum} {op : Operator}
      {hop : op = .add ∨ op = .subtract} {t : Phrase .product} (h : StandsIn enters s e) :
      StandsIn enters s (.sum e op hop t)
  | sumRight {k : PhraseKind} {s : Phrase k} {e : Phrase .sum} {op : Operator}
      {hop : op = .add ∨ op = .subtract} {t : Phrase .product} (h : StandsIn enters s t)
      (henters : enters op e.value t.value) : StandsIn enters s (.sum e op hop t)

/-- A phrase is a part of another one, wherever it stands in it. -/
abbrev IsPartOf (s : Phrase k) (e : Phrase l) : Prop :=
  StandsIn (fun _ _ _ ↦ True) s e

/-- A phrase stands in another one, but in no divisor that is hidden. -/
abbrev ShowsIn (s : Phrase k) (e : Phrase l) : Prop :=
  StandsIn (fun op a b ↦ ¬ op.Hides a b) s e

/-- Whether a value with a property arises at a phrase: it is a literal with such a value, or an
operation with such a result whose operands are finite. -/
def Yields (P : Binary64 → Bool) : {k : PhraseKind} → Phrase k → Prop
  | _, literal l => P (numberValue l.text) = true
  | _, product t op _ f =>
    t.value.isFinite = true ∧ f.value.isFinite = true ∧ P (op.apply t.value f.value) = true
  | _, sum e op _ t =>
    e.value.isFinite = true ∧ t.value.isFinite = true ∧ P (op.apply e.value t.value) = true
  | _, group _ | _, ofFactor _ | _, ofProduct _ => False

/-- Whether anything in a phrase overflows: a literal is read as an infinity, or the result of an
operation on finite numbers is one. -/
def Overflows (e : Phrase k) : Prop :=
  ∃ (j : PhraseKind) (s : Phrase j), s.IsPartOf e ∧ s.Yields (·.isInfinite)

/-- Whether a failure shows in a phrase: a literal that has no finite value, or an operation on
finite numbers that has no finite result. -/
def FailsOpenly (e : Phrase k) : Prop :=
  ∃ (j : PhraseKind) (s : Phrase j), s.ShowsIn e ∧ s.Yields (!·.isFinite)

/-- Whether a finite number is divided by an infinity anywhere in a phrase. -/
def DividesByInfinity (e : Phrase k) : Prop :=
  ∃ (t : Phrase .product) (op : Operator) (hop : op = .multiply ∨ op = .divide)
    (f : Phrase .factor), (product t op hop f).IsPartOf e ∧ op.Hides t.value f.value

/-! ## Failures and the value -/

theorem not_isFinite_value_of_yields {e : Phrase k} (h : e.Yields (!·.isFinite)) :
    ¬ e.value.isFinite = true := by
  rw [Bool.not_eq_true, ← Bool.not_eq_true']
  cases e with
  | literal l => exact h
  | product t op hop f | sum e op hop t => exact h.2.2
  | group e | ofFactor f | ofProduct t => exact h.elim

/-- Outside of hidden divisors, what is not finite makes everything around it not finite. -/
theorem ShowsIn.not_isFinite_value {s : Phrase k} {e : Phrase l} (h : s.ShowsIn e)
    (hs : ¬ s.value.isFinite = true) : ¬ e.value.isFinite = true := by
  induction h with
  | refl e => exact hs
  | group _ ih | ofFactor _ ih | ofProduct _ ih => exact ih hs
  | productLeft _ ih | sumLeft _ ih =>
    intro hfinite
    exact ih hs (Operator.isFinite_of_isFinite_apply hfinite).1
  | productRight _ hshown ih | sumRight _ hshown ih =>
    intro hfinite
    rcases (Operator.isFinite_of_isFinite_apply hfinite).2 with hright | hhides
    · exact ih hs hright
    · exact hshown hhides

theorem FailsOpenly.mono {e : Phrase k} {e' : Phrase l} (h : e.FailsOpenly)
    (hshows : ∀ {j : PhraseKind} {s : Phrase j}, s.ShowsIn e → s.ShowsIn e') :
    e'.FailsOpenly := by
  obtain ⟨j, s, hs, hyields⟩ := h
  exact ⟨j, s, hshows hs, hyields⟩

theorem not_isFinite_apply {op : Operator} {a b : Binary64}
    (h : ¬ (op.apply a b).isFinite = true) :
    ¬ a.isFinite = true ∨ (¬ b.isFinite = true ∧ ¬ op.Hides a b) ∨
      (a.isFinite = true ∧ b.isFinite = true ∧ (!(op.apply a b).isFinite) = true) := by
  by_cases ha : a.isFinite = true
  · by_cases hb : b.isFinite = true
    · exact .inr (.inr ⟨ha, hb, by simpa using h⟩)
    · exact .inr (.inl ⟨hb, fun hhides ↦ h (Operator.isFinite_apply_of_hides hhides)⟩)
  · exact .inl ha

theorem failsOpenly_of_not_isFinite_value (e : Phrase k) :
    ¬ e.value.isFinite = true → e.FailsOpenly := by
  induction e with
  | literal l =>
    intro h
    exact ⟨_, _, .refl (.literal l), by simpa [Yields, value] using h⟩
  | group e ih =>
    intro h
    exact (ih h).mono .group
  | ofFactor f ih =>
    intro h
    exact (ih h).mono .ofFactor
  | ofProduct t ih =>
    intro h
    exact (ih h).mono .ofProduct
  | product t op hop f iht ihf =>
    intro h
    rcases not_isFinite_apply h with hleft | ⟨hright, hshown⟩ | hhere
    · exact (iht hleft).mono .productLeft
    · exact (ihf hright).mono fun hs ↦ .productRight hs hshown
    · exact ⟨_, _, .refl _, hhere⟩
  | sum e op hop t ihe iht =>
    intro h
    rcases not_isFinite_apply h with hleft | ⟨hright, hshown⟩ | hhere
    · exact (ihe hleft).mono .sumLeft
    · exact (iht hright).mono fun hs ↦ .sumRight hs hshown
    · exact ⟨_, _, .refl _, hhere⟩

/-- **Failures that show.** The value of a phrase is not finite exactly if it fails openly. -/
theorem isFinite_value_eq_false_iff {e : Phrase k} :
    e.value.isFinite = false ↔ e.FailsOpenly := by
  rw [← Bool.not_eq_true]
  refine ⟨failsOpenly_of_not_isFinite_value e, ?_⟩
  rintro ⟨j, s, hstands, hyields⟩
  exact hstands.not_isFinite_value (not_isFinite_value_of_yields hyields)

/-! ## Overflows -/

theorem DividesByInfinity.mono {e : Phrase k} {e' : Phrase l} (h : e.DividesByInfinity)
    (hparts : ∀ {j : PhraseKind} {s : Phrase j}, s.IsPartOf e → s.IsPartOf e') :
    e'.DividesByInfinity := by
  obtain ⟨t, op, hop, f, hpart, hhides⟩ := h
  exact ⟨t, op, hop, f, hparts hpart, hhides⟩

/-- Where no finite number is divided by an infinity, nothing is hidden. -/
theorem IsPartOf.showsIn {s : Phrase k} {e : Phrase l} (h : s.IsPartOf e)
    (hdivides : ¬ e.DividesByInfinity) : s.ShowsIn e := by
  induction h with
  | refl e => exact .refl e
  | group _ ih => exact .group (ih fun h ↦ hdivides (h.mono .group))
  | ofFactor _ ih => exact .ofFactor (ih fun h ↦ hdivides (h.mono .ofFactor))
  | ofProduct _ ih => exact .ofProduct (ih fun h ↦ hdivides (h.mono .ofProduct))
  | productLeft _ ih => exact .productLeft (ih fun h ↦ hdivides (h.mono .productLeft))
  | sumLeft _ ih => exact .sumLeft (ih fun h ↦ hdivides (h.mono .sumLeft))
  | productRight _ _ ih =>
    refine .productRight (ih fun h ↦ hdivides (h.mono (.productRight · trivial))) ?_
    -- a division that hid the divisor would itself be the part that is excluded
    intro hhides
    exact hdivides ⟨_, _, _, _, .refl _, hhides⟩
  | sumRight _ _ ih =>
    exact .sumRight (ih fun h ↦ hdivides (h.mono (.sumRight · trivial)))
      (Operator.not_hides_of_sum (by assumption))

theorem Yields.mono {P Q : Binary64 → Bool} (hPQ : ∀ x, P x = true → Q x = true) {e : Phrase k}
    (h : e.Yields P) : e.Yields Q := by
  cases e with
  | literal l => exact hPQ _ h
  | product t op hop f | sum e op hop t => exact ⟨h.1, h.2.1, hPQ _ h.2.2⟩
  | group e | ofFactor f | ofProduct t => exact h.elim

theorem Overflows.failsOpenly {e : Phrase k} (h : e.Overflows) (hdivides : ¬ e.DividesByInfinity) :
    e.FailsOpenly := by
  obtain ⟨j, s, hpart, hyields⟩ := h
  refine ⟨j, s, hpart.showsIn hdivides, hyields.mono fun x hx ↦ ?_⟩
  rw [Binary64.isFinite_of_isInfinite hx, Bool.not_false]

end Phrase

/-- **Overflows that are noticed.** However blanks are put in and to whatever number of places it is
rounded, a derived text has no value exactly if a failure shows in its derivation. So an overflow
leaves it without a value wherever no finite number is divided by an infinity. -/
theorem roundedValue?_eq_none_iff_failsOpenly (e : Phrase .sum) {typed : Text}
    (h : WithBlanks e.text typed) (places : ℕ) :
    (roundedValue? places typed = none ↔ e.FailsOpenly) ∧
      (e.Overflows → ¬ e.DividesByInfinity → roundedValue? places typed = none) := by
  have hnone : roundedValue? places typed = none ↔ e.FailsOpenly := by
    rw [roundedValue?_eq_none_iff, e.scan_eq h, e.tokensValue_tokens, e.isFinite_value_eq_false_iff]
  exact ⟨hnone, fun hoverflow hdivides ↦ hnone.mpr (hoverflow.failsOpenly hdivides)⟩

/-- The digits of a whole number as a literal, the first digit with zeros after it. -/
def Literal.roundNumber (digit : Char) (hdigit : digit.isDigit = true) (zeros : ℕ) : Literal where
  negative := false
  digits := digit :: List.replicate zeros '0'
  digits_ne_nil := List.cons_ne_nil _ _
  isNumeralChar_of_mem := List.forall_mem_cons.mpr ⟨isNumeralChar_of_isDigit hdigit, fun c hc ↦ by
    rw [List.eq_of_mem_replicate hc]; rfl⟩

/-- Ten times `10 ^ 308` overflows. -/
theorem roundedValue?_ten_times_huge :
    roundedValue? 12 (('1' :: List.replicate 308 '0') ++ ['*', '1', '0']) = none := by
  let product (l l' : Literal) : Phrase .sum :=
    .ofProduct (.product (.ofFactor (.literal l)) .multiply (.inl rfl) (.literal l'))
  -- a product of two literals contains no other operation
  have hdivides : ∀ l l' : Literal, ¬ (product l l').DividesByInfinity := by
    rintro l l' ⟨t, op, hop, f, hpart, rfl, -, -⟩
    cases hpart with
    | ofProduct hpart =>
      cases hpart with
      | productLeft hpart =>
        cases hpart with
        | ofFactor hpart => cases hpart
      | productRight hpart => cases hpart
  have hoverflow : (product (.roundNumber '1' rfl 308) (.roundNumber '1' rfl 1)).Overflows :=
    ⟨_, _, .ofProduct (.refl _), by decide +kernel, by decide +kernel, by decide +kernel⟩
  exact (roundedValue?_eq_none_iff_failsOpenly _ (.refl _) 12).2 hoverflow (hdivides _ _)

/-- Ten times `10 ^ 308` overflows, and a number divided by it is zero. -/
theorem exists_overflow_with_value :
    ∃ e : Phrase .sum,
      e.text = ['1', '/', '(', '1'] ++ List.replicate 308 '0' ++ ['*', '1', '0', ')'] ∧
      e.Overflows ∧ roundedValue? 12 e.text = some (.zero false) := by
  let one : Phrase .factor := .literal (.roundNumber '1' rfl 0)
  let huge : Phrase .factor := .literal (.roundNumber '1' rfl 308)
  let ten : Phrase .factor := .literal (.roundNumber '1' rfl 1)
  let divisor : Phrase .sum := .ofProduct (.product (.ofFactor huge) .multiply (.inl rfl) ten)
  refine ⟨.ofProduct (.product (.ofFactor one) .divide (.inr rfl) (.group divisor)), by
    decide +kernel, ⟨_, _, .ofProduct (.productRight (.group (.ofProduct (.refl _))) trivial),
      by decide +kernel, by decide +kernel, by decide +kernel⟩, by decide +kernel⟩

end PocketCalculator
