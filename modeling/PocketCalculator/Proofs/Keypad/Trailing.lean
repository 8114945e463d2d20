import PocketCalculator.Keypad.Trailing
import PocketCalculator.Proofs.Keypad.Typed

/-!
# The number at the end of a typed expression

The keypad finds the number at the end of its line by its form alone. It takes the character in front
of a number to the number if that is a minus, whether it is a sign or an operator
(`splitTail?_run`). In a typed expression the number that it finds is the run of digits and points
that is being typed (`splitTail?_openRun`).
-/

namespace PocketCalculator

open Binary64 (signText)

/-! ## Longest tails -/

theorem splitTail?_eq_some {f : Text → Bool} {before tail : Text} (htail : f tail = true)
    (hlonger : ∀ before₁ before₂, before = before₁ ++ before₂ → before₂ ≠ [] →
      f (before₂ ++ tail) = false) : splitTail? f (before ++ tail) = some (before, tail) := by
  induction before with
  | nil =>
    cases tail with
    | nil => exact if_pos htail
    | cons c tail => exact if_pos htail
  | cons c before ih =>
    have hhere : f (c :: (before ++ tail)) = false :=
      hlonger [] (c :: before) rfl (List.cons_ne_nil c before)
    rw [List.cons_append, splitTail?, hhere, if_neg Bool.false_ne_true,
      ih fun before₁ before₂ heq hne ↦ hlonger (c :: before₁) before₂ (congrArg (c :: ·) heq) hne]
    rfl

theorem splitTail?_eq_none {f : Text → Bool} {text : Text}
    (h : ∀ before tail, text = before ++ tail → f tail = false) : splitTail? f text = none := by
  induction text with
  | nil =>
    rw [splitTail?, h [] [] rfl]
    rfl
  | cons c text ih =>
    rw [splitTail?, h [] (c :: text) rfl, if_neg Bool.false_ne_true,
      ih fun before tail heq ↦ h (c :: before) tail (congrArg (c :: ·) heq)]
    rfl

/-! ## The form of a number -/

theorem exists_signText_append_dropMinus (text : Text) :
    ∃ negative, text = signText negative ++ dropMinus text := by
  unfold dropMinus
  split
  · exact ⟨true, rfl⟩
  · exact ⟨false, rfl⟩

theorem dropMinus_suffix (text : Text) : dropMinus text <:+ text := by
  obtain ⟨negative, htext⟩ := exists_signText_append_dropMinus text
  exact ⟨signText negative, htext.symm⟩

theorem dropMinus_signText_append (negative : Bool) {text : Text} (h : '-' ∉ text) :
    dropMinus (signText negative ++ text) = text := by
  cases negative with
  | true => rfl
  | false =>
    rw [Binary64.signText_false_append, dropMinus]
    rintro rest rfl
    exact h List.mem_cons_self

theorem mem_dropMinus_cons {c d : Char} {text : Text} (h : c ∈ text) :
    c ∈ dropMinus (d :: text) := by
  by_cases hd : d = '-'
  · rw [hd]
    exact h
  · rw [dropMinus]
    · exact List.mem_cons_of_mem d h
    · exact fun rest heq ↦ hd (List.cons.inj heq).1

theorem mem_dropMinus {c : Char} {text : Text} (h : c ∈ text) (hc : c ≠ '-') :
    c ∈ dropMinus text := by
  cases text with
  | nil => exact absurd h List.not_mem_nil
  | cons d text =>
    rcases List.mem_cons.mp h with rfl | h
    · rw [dropMinus]
      · exact List.mem_cons_self
      · exact fun rest heq ↦ hc (List.cons.inj heq).1
    · exact mem_dropMinus_cons h

/-- In a text of the form of a number, nothing but a minus at its start is neither a digit nor a
point. -/
theorem isDecimalDigit_or_eq_of_mem {text : Text} (h : isPartialNumber text = true) {c : Char}
    (hc : c ∈ dropMinus text) : isDecimalDigit c = true ∨ c = '.' := by
  rw [isPartialNumber] at h
  rw [← List.takeWhile_append_dropWhile (p := isDecimalDigit) (l := dropMinus text)] at hc
  rcases List.mem_append.mp hc with hc | hc
  · exact .inl (List.mem_takeWhile_imp hc)
  · cases hrest : (dropMinus text).dropWhile isDecimalDigit with
    | nil =>
      rw [hrest] at hc
      exact absurd hc List.not_mem_nil
    | cons d rest =>
      rw [hrest] at h hc
      obtain ⟨hpoint, hall⟩ := Bool.and_eq_true_iff.mp h
      rcases List.mem_cons.mp hc with rfl | hc
      · exact .inr (of_decide_eq_true hpoint)
      · exact .inl (List.all_eq_true.mp hall c hc)

theorem isPartialNumber_eq_false {text : Text} {c : Char} (h : c ∈ dropMinus text)
    (hc : ¬ (isDecimalDigit c = true ∨ c = '.')) : isPartialNumber text = false := by
  rw [← Bool.not_eq_true]
  exact fun hpartial ↦ hc (isDecimalDigit_or_eq_of_mem hpartial h)

theorem not_isDecimalDigit_symbol (op : Operator) :
    ¬ (isDecimalDigit op.symbol = true ∨ op.symbol = '.') := by
  cases op <;> decide

theorem IsPositional.dropMinus_eq {text : Text} (h : IsPositional text) (negative : Bool) :
    dropMinus (signText negative ++ text) = text := by
  cases negative with
  | true => rfl
  | false =>
    obtain ⟨c, rest, rfl, hc⟩ := h.exists_cons
    rw [show signText false ++ c :: rest = c :: rest from rfl, dropMinus]
    rintro rest' heq
    rw [(List.cons.inj heq).1] at hc
    exact absurd hc (by decide)

theorem IsPositional.isCompleteNumber_eq {text : Text} (h : IsPositional text) (negative : Bool) :
    isCompleteNumber (signText negative ++ text) = true := by
  have hform : isFractionForm (text.dropWhile isDecimalDigit) = true := by
    have hpoint : ¬ isDecimalDigit '.' = true := by decide
    cases h with
    | whole _ h =>
      rw [List.dropWhile_eq_nil_iff.mpr fun c hc ↦ isDecimalDigit_of_isDigit (h c hc)]
      rfl
    | pointed _ h hfraction =>
      rw [List.dropWhile_append_of_pos fun c hc ↦ isDecimalDigit_of_isDigit (h c hc),
        List.dropWhile_cons_of_neg hpoint]
      exact List.all_eq_true.mpr fun c hc ↦ isDecimalDigit_of_isDigit (hfraction c hc)
  obtain ⟨c, rest, hcons, hc⟩ := h.exists_cons
  rw [isCompleteNumber, isPartialNumber, h.dropMinus_eq, hform, Bool.true_and, hcons]
  exact isDecimalDigit_of_isDigit hc

theorem isPartialNumber_of_isCompleteNumber {text : Text} (h : isCompleteNumber text = true) :
    isPartialNumber text = true :=
  (Bool.and_eq_true_iff.mp h).1

/-! ## The number at the end -/

/-- **The number at the end.** A run that has the form of a number is found whole after a character
that cannot be part of it, with the minus in front of it if there is one, and nothing more. -/
theorem splitTail?_run {f : Text → Bool}
    (hf : ∀ text, f text = true → isPartialNumber text = true) {before run : Text}
    (hlast : ∀ c, before.getLast? = some c → ¬ (isDecimalDigit c = true ∨ c = '.'))
    (hrun : ∀ negative, f (signText negative ++ run) = true) :
    ∃ (rest : Text) (negative : Bool), before = rest ++ signText negative ∧
      (negative = true ↔ before.getLast? = some '-') ∧
      splitTail? f (before ++ run) = some (rest, signText negative ++ run) := by
  have hfalse : ∀ {text : Text} {c : Char}, c ∈ dropMinus text →
      ¬ (isDecimalDigit c = true ∨ c = '.') → f text = false := by
    intro text c hmem hc
    rw [← Bool.not_eq_true]
    intro htrue
    have hpartial := hf text htrue
    rw [isPartialNumber_eq_false hmem hc] at hpartial
    exact absurd hpartial Bool.false_ne_true
  by_cases hminus : before.getLast? = some '-'
  · obtain ⟨rest, rfl⟩ := List.getLast?_eq_some_iff.mp hminus
    refine ⟨rest, true, rfl, iff_of_true rfl hminus, ?_⟩
    rw [List.append_assoc]
    refine splitTail?_eq_some (hrun true) fun before₁ before₂ heq hne ↦ ?_
    -- a longer tail has this minus not at its start
    obtain ⟨c, before₂, rfl⟩ := List.exists_cons_of_ne_nil hne
    refine hfalse (mem_dropMinus_cons ?_) (not_isDecimalDigit_symbol .subtract)
    exact List.mem_append_right _ List.mem_cons_self
  · refine ⟨before, false, (List.append_nil _).symm, iff_of_false Bool.false_ne_true hminus, ?_⟩
    refine splitTail?_eq_some (hrun false) fun before₁ before₂ heq hne ↦ ?_
    -- a longer tail has the last character in front of the run, which is no minus
    obtain ⟨before₂, c, rfl⟩ := (List.eq_nil_or_concat' before₂).resolve_left hne
    have hc : before.getLast? = some c := by
      rw [heq, ← List.append_assoc, List.getLast?_concat]
    have hne : c ≠ '-' := fun heq ↦ hminus (heq ▸ hc)
    refine hfalse (mem_dropMinus (List.mem_append_left _ ?_) hne) (hlast c hc)
    exact List.mem_append_right _ List.mem_cons_self

open Place

variable {q : Place}

/-- In a typed expression, the run that is being typed is the number at the end. -/
theorem splitTail?_openRun {f : Text → Bool}
    (hf : ∀ text, f text = true → isPartialNumber text = true) {before run : Text} {r : Place}
    (hbefore : start.after? before = some r) (hr : r.IsBetween)
    (hrun : ∀ negative, f (signText negative ++ run) = true) :
    ∃ (rest : Text) (negative : Bool) (s : Place), before = rest ++ signText negative ∧
      start.after? rest = some s ∧ s.Takes negative ∧
      splitTail? f (before ++ run) = some (rest, signText negative ++ run) := by
  have hlast : ∀ c, before.getLast? = some c → ¬ (isDecimalDigit c = true ∨ c = '.') := by
    intro c hc
    rcases eq_nil_or_symbol hbefore hr with rfl | ⟨rest, op, -, rfl, -, -⟩
    · exact absurd hc.symm (Option.some_ne_none c)
    · rw [List.getLast?_concat] at hc
      exact Option.some_inj.mp hc ▸ not_isDecimalDigit_symbol op
  obtain ⟨rest, negative, rfl, -, hsplit⟩ := splitTail?_run hf hlast hrun
  cases negative with
  | true =>
    obtain ⟨s, hs, hminus⟩ := after?_concat_eq_some.mp hbefore
    exact ⟨rest, true, s, rfl, hs, ne_symbol_of_next? hminus rfl, hsplit⟩
  | false =>
    refine ⟨rest, false, r, rfl, ?_, hr, hsplit⟩
    rwa [show rest ++ signText false = rest from List.append_nil rest] at hbefore

theorem trailingNumber?_eq_none {text : Text} (h : start.after? text = some q) (hq : q.IsBetween) :
    trailingNumber? text = none := by
  refine splitTail?_eq_none fun before tail heq ↦ ?_
  rw [← Bool.not_eq_true]
  intro hcomplete
  obtain ⟨hpartial, hhead⟩ := Bool.and_eq_true_iff.mp hcomplete
  rcases List.eq_nil_or_concat' tail with rfl | ⟨tail, c, rfl⟩
  · exact absurd hhead Bool.false_ne_true
  rcases eq_nil_or_symbol h hq with rfl | ⟨rest, op, -, rfl, -, -⟩
  · exact absurd (List.append_eq_nil_iff.mp heq.symm).2 (List.concat_ne_nil c tail)
  obtain rfl : op.symbol = c := by
    have hlast := congrArg List.getLast? heq
    rw [← List.append_assoc, List.getLast?_concat, List.getLast?_concat] at hlast
    exact Option.some_inj.mp hlast
  cases tail with
  | nil =>
    -- the operator alone is no number, even if it is a minus
    cases op <;> exact absurd hcomplete (by decide)
  | cons d tail =>
    rw [List.cons_append, isPartialNumber_eq_false
      (mem_dropMinus_cons (List.mem_append_right tail List.mem_cons_self))
      (not_isDecimalDigit_symbol op)] at hpartial
    exact absurd hpartial Bool.false_ne_true

/-- The number at the end of a typed expression, if it finds one, is the run that is being typed,
perhaps with a minus. What is left in front of it can be typed. -/
theorem exists_of_trailingNumber? {text before number : Text} (h : start.after? text = some q)
    (hnumber : trailingNumber? text = some (before, number)) :
    ∃ (negative : Bool) (run : Text) (s : Place), number = signText negative ++ run ∧
      IsPositional run ∧ start.after? before = some s ∧ s.Takes negative := by
  obtain ⟨rest, run, r, rfl, hrest, hr, hrun⟩ := exists_openRun (.inl rfl) h
  by_cases hne : run = []
  · have hq : q.IsBetween := by
      cases hrun with
      | start => exact .inl rfl
      | symbol => exact .inr rfl
      | whole hdigits _ => exact absurd hne hdigits
      | fraction hdigits _ _ =>
        exact absurd hne (List.append_ne_nil_of_left_ne_nil hdigits _)
    rw [trailingNumber?_eq_none h hq] at hnumber
    exact absurd hnumber.symm (Option.some_ne_none _)
  · have hpositional := hrun.isPositional hne
    obtain ⟨before', negative, s, -, hs, htakes, hsplit⟩ :=
      splitTail?_openRun (fun _ ↦ isPartialNumber_of_isCompleteNumber) hrest hr
        hpositional.isCompleteNumber_eq
    rw [trailingNumber?, hsplit] at hnumber
    cases hnumber
    exact ⟨negative, run, s, rfl, hpositional, hs, htakes⟩

theorem dot_mem_trailingPartialNumber {text : Text} (h : start.after? text = some fraction) :
    '.' ∈ trailingPartialNumber text := by
  obtain ⟨rest, run, r, rfl, hrest, hr, hrun⟩ := exists_openRun (.inl rfl) h
  have hdot : '.' ∈ run ∧ run ≠ [] := by
    cases hrun with
    | fraction hne _ _ =>
      exact ⟨List.mem_append_right _ List.mem_cons_self, List.append_ne_nil_of_left_ne_nil hne _⟩
  have hpositional := hrun.isPositional hdot.2
  obtain ⟨before', negative, s, -, -, -, hsplit⟩ := splitTail?_openRun (fun _ ↦ id) hrest hr
    fun negative ↦ isPartialNumber_of_isCompleteNumber (hpositional.isCompleteNumber_eq negative)
  rw [trailingPartialNumber, hsplit]
  exact List.mem_append_right _ hdot.1

end PocketCalculator
