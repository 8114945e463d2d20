import Mathlib.Data.List.Induction
import PocketCalculator.Keypad.Basic
import PocketCalculator.Proofs.Calculation.Places
import PocketCalculator.Proofs.Decimal.ReadBack

/-!
# The result line

A key evaluates the expression, clears the result or leaves it as it is (`result_press`), and which
of the three it does depends on the key and the expression alone. So a result that is shown is that
of the last evaluation, and all keys after that left it as it was (`result_pressAll_eq_iff`).
-/

namespace PocketCalculator.Keypad

variable {places : ℕ} {keypad : Keypad}

/-! ## Evaluations -/

theorem toText_ne_errorText {x : Binary64} (hx : x.isFinite = true) : x.toText ≠ errorText := by
  obtain ⟨negative, text, htext, heq⟩ := Binary64.exists_isPositional_toText hx
  obtain ⟨c, rest, rfl, hc⟩ := htext.exists_cons
  rw [heq]
  intro herror
  cases negative with
  | true => exact absurd (List.cons.inj herror).1 (by decide)
  | false =>
    rw [(List.cons.inj herror).1] at hc
    exact absurd hc (by decide)

theorem toText_ne_nil {x : Binary64} (hx : x.isFinite = true) : x.toText ≠ [] := by
  obtain ⟨negative, text, htext, heq⟩ := Binary64.exists_isPositional_toText hx
  rw [heq]
  exact List.append_ne_nil_of_right_ne_nil _ htext.ne_nil

theorem result_evaluated_eq_errorText_iff :
    (keypad.evaluated places).result = errorText ↔
      roundedValue? places keypad.expression = none := by
  rw [evaluated]
  cases hvalue : roundedValue? places keypad.expression with
  | none => exact iff_of_true rfl rfl
  | some value =>
    exact iff_of_false (toText_ne_errorText (isFinite_of_roundedValue? hvalue))
      (Option.some_ne_none value)

/-! ## One key -/

/-- Whether a key leaves the result as it is. Keys that type something do, and so does Percent where
it finds nothing to divide. -/
def keepsResult (keypad : Keypad) : Key → Bool
  | .clear | .delete | .equals => false
  | .percent => (takePercent? keypad.expression).isNone
  | .dot | .operator _ | .digit _ => true

/-- **One key** leaves the result as it is, evaluates the expression or clears the result. -/
theorem result_press (places : ℕ) (keypad : Keypad) (key : Key) :
    (keypad.press places key).result =
      if keypad.keepsResult key then keypad.result
      else if key = .equals then (keypad.evaluated places).result
      else [] := by
  cases key with
  | clear | delete | equals | dot | operator op | digit c => rfl
  | percent =>
    rw [press, keepsResult]
    cases takePercent? keypad.expression with
    | none => rfl
    | some expression => rfl

/-! ## Any keys -/

/-- Whether all of the keys, pressed one after another, leave the result as it is. -/
def keepResult (places : ℕ) (keypad : Keypad) : List Key → Prop
  | [] => True
  | key :: rest =>
    keypad.keepsResult key = true ∧ keepResult places (keypad.press places key) rest

theorem keepResult_concat {keys : List Key} {key : Key} :
    keepResult places keypad (keys ++ [key]) ↔
      keepResult places keypad keys ∧
        (keypad.pressAll places keys).keepsResult key = true := by
  induction keys generalizing keypad with
  | nil => exact and_comm
  | cons first keys ih =>
    rw [List.cons_append, keepResult, keepResult, ih, pressAll_cons, and_assoc]

theorem result_pressAll_of_keepResult {keys : List Key} (h : keepResult places keypad keys) :
    (keypad.pressAll places keys).result = keypad.result := by
  induction keys generalizing keypad with
  | nil => rfl
  | cons key keys ih =>
    rw [pressAll_cons, ih h.2, result_press, if_pos h.1]

/-- **The result that is shown.** Something is shown as the result exactly if it is the result of
some evaluation and all keys after that left it as it was. -/
theorem result_pressAll_eq_iff {keys : List Key} {result : Text} (hresult : result ≠ []) :
    (pressAll places {} keys).result = result ↔
      ∃ before after, keys = before ++ .equals :: after ∧
        ((pressAll places {} before).evaluated places).result = result ∧
        keepResult places ((pressAll places {} before).evaluated places) after := by
  constructor
  · intro h
    induction keys using List.reverseRecOn with
    | nil => exact absurd h.symm hresult
    | append_singleton keys key ih =>
      rw [pressAll_append, pressAll_cons, pressAll_nil, result_press] at h
      split_ifs at h with hkeeps hequals
      · obtain ⟨before, after, rfl, heval, hafter⟩ := ih h
        refine ⟨before, after ++ [key], by rw [List.append_assoc, List.cons_append], heval, ?_⟩
        rw [keepResult_concat]
        rw [pressAll_append] at hkeeps
        exact ⟨hafter, hkeeps⟩
      · exact ⟨keys, [], by rw [hequals], h, trivial⟩
      · exact absurd h.symm hresult
  · rintro ⟨before, after, rfl, heval, hafter⟩
    rw [pressAll_append, pressAll_cons, press, result_pressAll_of_keepResult hafter, heval]

end PocketCalculator.Keypad
