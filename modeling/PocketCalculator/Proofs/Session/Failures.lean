import PocketCalculator.CommandLine.Report
import PocketCalculator.Proofs.Keypad.Result

/-!
# Failures in a session at the keypad

A run fails if an evaluation in it failed. For expressions that are given together this is kept
track of: a failure is recorded, and a later success does not undo it. A session at the keypad
keeps no such record. It is judged by the keypad in the end, so a failure counts only as long as it
is shown: a later evaluation, and any key that clears the result, makes the session succeed
(`failed_ofKeys_iff`).
-/

namespace PocketCalculator

open Keypad

/-- Whether an evaluation fails while keys are pressed. -/
def SomeEvaluationFails (places : ℕ) (keys : List Key) : Prop :=
  ∃ before after, keys = before ++ .equals :: after ∧
    roundedValue? places (pressAll places {} before).expression = none

/-- Whether an evaluation fails and all keys after it leave the result as it is. -/
def LastingFailure (places : ℕ) (keys : List Key) : Prop :=
  ∃ before after, keys = before ++ .equals :: after ∧
    roundedValue? places (pressAll places {} before).expression = none ∧
    keepResult places ((pressAll places {} before).evaluated places) after

theorem LastingFailure.someEvaluationFails {places : ℕ} {keys : List Key}
    (h : LastingFailure places keys) : SomeEvaluationFails places keys := by
  obtain ⟨before, after, heq, hnone, -⟩ := h
  exact ⟨before, after, heq, hnone⟩

theorem isError_pressAll_iff {places : ℕ} {keys : List Key} :
    (pressAll places {} keys).isError = true ↔ LastingFailure places keys := by
  have hne : errorText ≠ [] := List.cons_ne_nil _ _
  rw [isError, decide_eq_true_iff, result_pressAll_eq_iff hne]
  simp only [result_evaluated_eq_errorText_iff]
  rfl

theorem ofKeys_eq {options : Options} {text : Text} {keys : List Key}
    (hkeys : readKeys (words text) = .ok keys) :
    Session.ofKeys options text =
      { lines := [(pressAll options.places {} keys).display]
        outcome := .ofKeypad (pressAll options.places {} keys) } := by
  have hreplay : replay options.places text = .ok (pressAll options.places {} keys) := by
    rw [replay, hkeys]
  rw [Session.ofKeys, hreplay]

/-- A session that was finished decides by its outcome how the run ends. -/
theorem code_ofSession_eq_one_iff {session : Session} (h : session.error = none) :
    (Report.ofSession session (.ok ())).status.code = 1 ↔ session.outcome.failed = true := by
  unfold Report.ofSession
  rw [h]
  dsimp only
  split_ifs with hfailed
  · exact iff_of_true rfl hfailed
  · exact iff_of_false (by decide) hfailed

/-- **Failures at the keypad.** A session at the keypad fails, and the run ends with status 1,
exactly if an evaluation fails in it and all keys after it leave the result as it is. So it tells
whether any evaluation failed exactly if, when one did, one failure lasts. -/
theorem failed_ofKeys_iff (options : Options) {text : Text} {keys : List Key}
    (hkeys : readKeys (words text) = .ok keys) :
    ((Session.ofKeys options text).outcome.failed = true ↔ LastingFailure options.places keys) ∧
      ((Report.ofSession (Session.ofKeys options text) (.ok ())).status.code = 1 ↔
        LastingFailure options.places keys) ∧
      (((Session.ofKeys options text).outcome.failed = true ↔
          SomeEvaluationFails options.places keys) ↔
        (SomeEvaluationFails options.places keys → LastingFailure options.places keys)) := by
  have hfailed : (Session.ofKeys options text).outcome.failed = true ↔
      LastingFailure options.places keys := by
    rw [ofKeys_eq hkeys]
    exact isError_pressAll_iff
  refine ⟨hfailed, ?_, ?_⟩
  · rw [code_ofSession_eq_one_iff (by rw [ofKeys_eq hkeys]), hfailed]
  · rw [hfailed]
    exact ⟨fun h ↦ h.mpr, fun h ↦ ⟨LastingFailure.someEvaluationFails, h⟩⟩

/-- The failure of `5 / 0` lasts while another number is typed. -/
theorem failed_five_over_zero_seven :
    (Session.ofKeys {} "5 / 0 = 7".toList).outcome.failed = true := by
  have hkeys : readKeys (words "5 / 0 = 7".toList) =
      .ok [.digit '5', .operator .divide, .digit '0', .equals, .digit '7'] := by decide +kernel
  refine (failed_ofKeys_iff {} hkeys).1.mpr
    ⟨[.digit '5', .operator .divide, .digit '0'], [.digit '7'], rfl, by decide +kernel, ?_⟩
  exact ⟨rfl, trivial⟩

/-- The failure of `5 / 0` is no longer told when `7` has been evaluated. -/
theorem exists_failure_that_is_hidden :
    ∃ keys, readKeys (words "5 / 0 = 7 =".toList) = .ok keys ∧ SomeEvaluationFails 12 keys ∧
      (Session.ofKeys {} "5 / 0 = 7 =".toList).outcome.failed = false ∧
      (Report.ofSession (Session.ofKeys {} "5 / 0 = 7 =".toList) (.ok ())).status.code = 0 := by
  refine ⟨[.digit '5', .operator .divide, .digit '0', .equals, .digit '7', .equals],
    by decide +kernel, ⟨[.digit '5', .operator .divide, .digit '0'], [.digit '7', .equals], rfl,
      by decide +kernel⟩, by decide +kernel, by decide +kernel⟩

end PocketCalculator
