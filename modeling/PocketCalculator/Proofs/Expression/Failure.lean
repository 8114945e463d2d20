import PocketCalculator.Calculation.Basic
import PocketCalculator.Proofs.Expression.Conservation
import PocketCalculator.Proofs.Expression.Stack

/-!
# Failing steps

A step of an evaluation can fail: a text may be no numeral, an operator may lack operands, a
divisor may be zero, and a parenthesis that was never closed has nothing to compute. A failing step
does not end the evaluation unless it lacks operands. It puts something on the stack that is no
number, and the evaluation goes on.

## When a failure counts

What is no number is passed on by every operator, but the value of a sequence is read from the
bottom of the stack, and values above the bottom are left over. So a failure counts exactly if what
it put on the stack gets to the bottom: if, when the failing token has been evaluated or at some
time later, no more than one value is left. That can be told from the depth of the sequence up to
there (`postfixValue_of_failure`, `postfixValue_of_harmless_failure`).

In `1(2)(3)(` the open parenthesis takes the values of `2` and `3`; nothing ever takes what it puts
back, and the expression has the value 1.
-/

namespace PocketCalculator

/-- Whether a token fails on a stack. -/
def FailsOn (stack : List Binary64) : Token → Prop
  | .number text => readNumber? text = none
  | .operator op =>
    stack.length < 2 ∨ op = .divide ∧ ∃ b, stack.head? = some b ∧ b.isZero = true
  | .openParen | .closeParen => True

theorem stepStack?_of_failsOn {stack stack' : List Binary64} {token : Token}
    (hfails : FailsOn stack token) (hstep : stepStack? stack token = some stack') :
    .nan ∈ stack' := by
  obtain ⟨text, rfl, rfl⟩ | ⟨htoken, a, b, below, rfl, rfl⟩ := stepStack?_eq_some hstep
  · have hvalue : numberValue text = .nan := by
      rw [numberValue, show readNumber? text = none from hfails]
      rfl
    rw [hvalue]
    exact List.mem_cons_self
  · cases token with
    | number text => exact absurd rfl (htoken text)
    | openParen | closeParen => exact List.mem_cons_self
    | operator op =>
      rcases hfails with hshort | ⟨rfl, c, hc, hzero⟩
      · simp only [List.length_cons] at hshort
        omega
      · cases hc
        have hvalue : Token.combine (.operator .divide) a b = .nan := if_pos hzero
        rw [hvalue]
        exact List.mem_cons_self

/-- The evaluation up to a failing token and some more tokens leaves something on the stack that is
no number, if it gets so far. -/
theorem nan_mem_of_failsOn {before part : List Token} {token : Token}
    {stack stack' : List Binary64} (hbefore : runStack? [] before = some stack)
    (hfails : FailsOn stack token) (hrun : runStack? [] (before ++ token :: part) = some stack') :
    .nan ∈ stack' := by
  rw [runStack?_append, hbefore, Option.bind_some] at hrun
  obtain ⟨between, hstep, hpart⟩ := Option.bind_eq_some_iff.mp hrun
  exact nan_mem_runStack? hpart (stepStack?_of_failsOn hfails hstep)

theorem postfixValue_of_failure {before after : List Token} {token : Token}
    {stack : List Binary64} (hbefore : runStack? [] before = some stack)
    (hfails : FailsOn stack token)
    (hlow : ∃ part, part <+: after ∧ depth (before ++ token :: part) ≤ 1) :
    postfixValue (before ++ token :: after) = .nan := by
  obtain ⟨part, ⟨rest, rfl⟩, hdepth⟩ := hlow
  have hsplit : before ++ token :: (part ++ rest) = (before ++ token :: part) ++ rest := by simp
  rw [postfixValue, postfixValueFrom_eq, hsplit, runStack?_append]
  cases hrun : runStack? [] (before ++ token :: part) with
  | none => rfl
  | some low =>
    have hnan := nan_mem_of_failsOn hbefore hfails hrun
    have hlength := length_runStack? hrun
    rw [List.length_nil] at hlength
    -- the one value that is left is the one that is no number
    have hlast : low.getLast? = some .nan := by
      match low, hnan, hlength with
      | [a], hnan, _ => rw [← List.mem_singleton.mp hnan]; rfl
      | _ :: _ :: _, _, hlength => simp at hlength; omega
    cases hrest : runStack? low rest with
    | none => rw [Option.bind_some, hrest]; rfl
    | some final => rw [Option.bind_some, hrest, Option.bind_some,
        getLast?_eq_nan_runStack? hrest hlast]; rfl

/-- A failure with two values left ever after is of no consequence. -/
theorem postfixValue_of_harmless_failure {before after : List Token} {token : Token}
    {stack : List Binary64} (hbefore : runStack? [] before = some stack)
    (hhigh : ¬ ∃ part, part <+: after ∧ depth (before ++ token :: part) ≤ 1) :
    postfixValue (before ++ token :: after) = stack.getLast?.getD .nan := by
  have hlength := length_runStack? hbefore
  rw [List.length_nil] at hlength
  have hkeeps : ∀ part, part <+: token :: after → part ≠ [] →
      2 ≤ stack.length + depth part := by
    intro part hpart hne
    obtain ⟨t, more, rfl⟩ := List.exists_cons_of_ne_nil hne
    obtain ⟨rfl, hmore⟩ := List.cons_prefix_cons.mp hpart
    have hdepth : ¬ depth (before ++ t :: more) ≤ 1 := fun h ↦ hhigh ⟨more, hmore, h⟩
    rw [depth_append] at hdepth
    omega
  obtain ⟨final, hrun, hlast⟩ := getLast?_runStack? hkeeps
  rw [postfixValue, postfixValueFrom_eq, runStack?_append, hbefore, Option.bind_some, hrun,
    Option.bind_some, hlast]

/-- **When failures make a calculation fail.** If the evaluation of an expression gets to a token
that fails, there is no value exactly if at most one value is left on the stack at that time or
later, or if what lies at the bottom under the failure is not finite. And if a parenthesis is never
closed, the evaluation gets to an open parenthesis, which fails, or there is no value. -/
theorem roundedValue?_eq_none_iff_of_failure (places : Nat) (expression : Text) :
    (∀ (before after : List Token) (token : Token) (stack : List Binary64),
      postfixOrder (scan expression) = before ++ token :: after →
      runStack? [] before = some stack → FailsOn stack token →
      (roundedValue? places expression = none ↔
        (∃ part, part <+: after ∧ depth (before ++ token :: part) ≤ 1) ∨
          (stack.getLast?.getD .nan).isFinite = false)) ∧
    (0 < unclosed (scan expression) →
      (∃ (before after : List Token) (stack : List Binary64),
        postfixOrder (scan expression) = before ++ .openParen :: after ∧
          runStack? [] before = some stack ∧ FailsOn stack .openParen) ∨
        roundedValue? places expression = none) := by
  have hvalue : ∀ {tokens : List Token}, postfixOrder (scan expression) = tokens → tokens ≠ [] →
      tokensValue (scan expression) = postfixValue tokens := by
    intro tokens horder hne
    have hscan : (scan expression).isEmpty = false := by
      rw [List.isEmpty_eq_false_iff]
      intro hnil
      rw [hnil] at horder
      exact hne horder.symm
    rw [tokensValue, hscan, if_neg Bool.false_ne_true, horder]
  constructor
  · intro before after token stack horder hbefore hfails
    rw [roundedValue?_eq_none_iff, hvalue horder (by simp)]
    by_cases hlow : ∃ part, part <+: after ∧ depth (before ++ token :: part) ≤ 1
    · rw [postfixValue_of_failure hbefore hfails hlow]
      exact iff_of_true rfl (.inl hlow)
    · rw [postfixValue_of_harmless_failure hbefore hlow]
      exact ⟨.inr, fun h ↦ h.resolve_left hlow⟩
  · intro hunclosed
    rw [← count_openParen_postfixOrder, List.count_pos_iff] at hunclosed
    obtain ⟨before, after, horder⟩ := List.append_of_mem hunclosed
    cases hbefore : runStack? [] before with
    | some stack => exact .inl ⟨before, after, stack, horder, hbefore, trivial⟩
    | none =>
      right
      rw [roundedValue?_eq_none_iff, hvalue horder (by simp), postfixValue, postfixValueFrom_eq,
        runStack?_append, hbefore]
      rfl

/-- In `(2*(3)` the open parenthesis leaves a single value. -/
theorem roundedValue?_eq_none_of_open_product :
    ∃ stack, runStack? [] [.number ['2'], .number ['3'], .operator .multiply] = some stack ∧
      postfixOrder (scan ['(', '2', '*', '(', '3', ')']) =
        [.number ['2'], .number ['3'], .operator .multiply] ++ .openParen :: [] ∧
      roundedValue? 12 ['(', '2', '*', '(', '3', ')'] = none := by
  refine ⟨_, rfl, by decide +kernel, ?_⟩
  refine ((roundedValue?_eq_none_iff_of_failure 12 _).1
    [.number ['2'], .number ['3'], .operator .multiply] [] .openParen _ (by decide +kernel) rfl
    trivial).mpr (.inl ⟨[], List.nil_prefix, by decide⟩)

/-- In `1(2)(3)(` a parenthesis is never closed and the evaluation gets to it, but there is a
value. -/
theorem exists_value_despite_failure :
    ∃ (before after : List Token) (stack : List Binary64),
      0 < unclosed (scan ['1', '(', '2', ')', '(', '3', ')', '(']) ∧
      postfixOrder (scan ['1', '(', '2', ')', '(', '3', ')', '(']) = before ++ .openParen :: after ∧
      runStack? [] before = some stack ∧ FailsOn stack .openParen ∧
      roundedValue? 12 ['1', '(', '2', ')', '(', '3', ')', '('] ≠ none := by
  refine ⟨[.number ['1'], .number ['2'], .number ['3']], [], _, by decide +kernel,
    by decide +kernel, rfl, trivial, ?_⟩
  have horder : tokensValue (scan ['1', '(', '2', ')', '(', '3', ')', '(']) =
      postfixValue ([.number ['1'], .number ['2'], .number ['3']] ++ .openParen :: []) := by
    have hscan : scan ['1', '(', '2', ')', '(', '3', ')', '('] =
        [.number ['1'], .openParen, .number ['2'], .closeParen, .openParen, .number ['3'],
          .closeParen, .openParen] := by
      decide +kernel
    rw [hscan]
    rfl
  rw [Ne, roundedValue?_eq_none_iff, horder, postfixValue_of_harmless_failure rfl]
  · decide +kernel
  · rintro ⟨part, hpart, hdepth⟩
    rw [List.prefix_nil.mp hpart] at hdepth
    exact absurd hdepth (by decide)

end PocketCalculator
