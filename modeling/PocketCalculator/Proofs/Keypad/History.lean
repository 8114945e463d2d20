import PocketCalculator.Proofs.Keypad.Result
import PocketCalculator.Session.Outcome

/-!
# The result line and the keys before it

The result line is a part of the state, and what it shows depends on keys that may have been pressed
long ago. This file says on which. The last evaluation decides what can be shown, and the keys after
it decide whether it still is: each of them leaves the result line as it is or clears it, and what
was cleared stays empty until the next evaluation (`LastEvaluation.result_pressAll`).

No text of a number is empty or reads like the error. So the result line tells whether there was an
evaluation that still counts, and whether it failed, and the outcome of a session says just that
(`result_follows_history`).
-/

namespace PocketCalculator.Keypad

variable {places : ℕ} {keypad : Keypad}

/-! ## Clearing the result -/

/-- Whether a key clears the result: starting anew and deleting do, and Percent does where it
rewrites the expression. -/
def clearsResult (keypad : Keypad) : Key → Bool
  | .clear | .delete => true
  | .percent => (takePercent? keypad.expression).isSome
  | .equals | .dot | .operator _ | .digit _ => false

/-- Whether one of the keys, pressed one after another, clears the result. -/
def ResultIsCleared (places : ℕ) (keypad : Keypad) (keys : List Key) : Prop :=
  ∃ before key after, keys = before ++ key :: after ∧
    (keypad.pressAll places before).clearsResult key = true

theorem keepsResult_iff {key : Key} :
    keypad.keepsResult key = true ↔ key ≠ .equals ∧ ¬ keypad.clearsResult key = true := by
  cases key <;> simp [keepsResult, clearsResult]

theorem result_press_of_clearsResult {key : Key} (h : keypad.clearsResult key = true) :
    (keypad.press places key).result = [] := by
  have hkeeps : ¬ keypad.keepsResult key = true := fun hkeeps ↦ (keepsResult_iff.mp hkeeps).2 h
  have hequals : key ≠ .equals := by
    rintro rfl
    exact Bool.false_ne_true h
  rw [result_press, if_neg hkeeps, if_neg hequals]

theorem not_resultIsCleared_nil : ¬ ResultIsCleared places keypad [] := by
  rintro ⟨before, key, after, heq, -⟩
  exact List.append_ne_nil_of_right_ne_nil before (List.cons_ne_nil key after) heq.symm

theorem resultIsCleared_cons {key : Key} {keys : List Key} :
    ResultIsCleared places keypad (key :: keys) ↔
      keypad.clearsResult key = true ∨ ResultIsCleared places (keypad.press places key) keys := by
  constructor
  · rintro ⟨before, cleared, after, heq, hclears⟩
    rcases before with _ | ⟨first, before⟩
    · obtain ⟨rfl, rfl⟩ := List.cons.inj heq
      exact .inl hclears
    · obtain ⟨rfl, rfl⟩ := List.cons.inj heq
      exact .inr ⟨before, cleared, after, rfl, hclears⟩
  · rintro (hclears | ⟨before, cleared, after, rfl, hclears⟩)
    · exact ⟨[], key, keys, rfl, hclears⟩
    · exact ⟨key :: before, cleared, after, rfl, hclears⟩

theorem keepResult_iff {keys : List Key} :
    keepResult places keypad keys ↔ .equals ∉ keys ∧ ¬ ResultIsCleared places keypad keys := by
  induction keys generalizing keypad with
  | nil => exact iff_of_true trivial ⟨List.not_mem_nil, not_resultIsCleared_nil⟩
  | cons key keys ih =>
    rw [keepResult, ih, keepsResult_iff, resultIsCleared_cons, List.mem_cons, not_or, not_or,
      ne_comm]
    tauto

theorem result_pressAll_eq_nil {keys : List Key} (hkeys : .equals ∉ keys)
    (hresult : keypad.result = []) : (keypad.pressAll places keys).result = [] := by
  refine pressAll_induction (P := fun keypad ↦ keypad.result = []) hresult ?_
  intro keypad hempty key hkey
  have hequals : key ≠ .equals := fun h ↦ hkeys (h ▸ hkey)
  rw [result_press, if_neg hequals]
  split_ifs
  · exact hempty
  · rfl

theorem result_pressAll_of_resultIsCleared {keys : List Key} (hkeys : .equals ∉ keys)
    (hcleared : ResultIsCleared places keypad keys) : (keypad.pressAll places keys).result = [] := by
  obtain ⟨before, key, after, rfl, hclears⟩ := hcleared
  have hafter : .equals ∉ after := by
    intro hmem
    exact hkeys (List.mem_append_right before (List.mem_cons_of_mem key hmem))
  rw [pressAll_append, pressAll_cons]
  exact result_pressAll_eq_nil hafter (result_press_of_clearsResult hclears)

/-! ## The last evaluation -/

/-- What an evaluation of an expression writes into the result line: the text of its value, or the
error if it has none. -/
def evaluationText (places : ℕ) (expression : Text) : Text :=
  match roundedValue? places expression with
  | some value => value.toText
  | none => errorText

theorem result_evaluated (places : ℕ) (keypad : Keypad) :
    (keypad.evaluated places).result = evaluationText places keypad.expression := by
  rw [evaluated, evaluationText]
  cases roundedValue? places keypad.expression <;> rfl

/-- Some of the keys evaluate, and the last one that does stands between `before` and `after`. -/
structure LastEvaluation (keys before after : List Key) : Prop where
  keys_eq : keys = before ++ .equals :: after
  notMem_after : .equals ∉ after

theorem exists_lastEvaluation {keys : List Key} (h : .equals ∈ keys) :
    ∃ before after, LastEvaluation keys before after := by
  -- the last evaluation is the first one from the end
  obtain ⟨after, before, heq, hnotMem⟩ := List.eq_append_cons_of_mem (List.mem_reverse.mpr h)
  refine ⟨before.reverse, after.reverse, ?_, fun hmem ↦ hnotMem (List.mem_reverse.mp hmem)⟩
  rw [← List.reverse_reverse keys, heq]
  simp

/-- Whether the result of the evaluation that stands between `before` and `after` is cleared
afterwards. -/
def IsClearedSince (places : ℕ) (before after : List Key) : Prop :=
  ResultIsCleared places ((pressAll places {} before).evaluated places) after

/-- The result line is what the last evaluation wrote, or empty if that was cleared. -/
theorem LastEvaluation.result_pressAll {keys before after : List Key}
    (h : LastEvaluation keys before after) :
    (IsClearedSince places before after → (pressAll places {} keys).result = []) ∧
      (¬ IsClearedSince places before after →
        (pressAll places {} keys).result =
          evaluationText places (pressAll places {} before).expression) := by
  rw [h.keys_eq, pressAll_append, pressAll_cons, press, ← result_evaluated]
  refine ⟨result_pressAll_of_resultIsCleared h.notMem_after, fun hkept ↦ ?_⟩
  exact result_pressAll_of_keepResult (keepResult_iff.mpr ⟨h.notMem_after, hkept⟩)

theorem result_pressAll_eq_iff_lastEvaluation {keys : List Key} {result : Text}
    (hresult : result ≠ []) :
    (pressAll places {} keys).result = result ↔
      ∃ before after, LastEvaluation keys before after ∧ ¬ IsClearedSince places before after ∧
        evaluationText places (pressAll places {} before).expression = result := by
  rw [result_pressAll_eq_iff hresult]
  constructor
  · rintro ⟨before, after, heq, htext, hkeep⟩
    obtain ⟨hnotMem, hkept⟩ := keepResult_iff.mp hkeep
    exact ⟨before, after, ⟨heq, hnotMem⟩, hkept, (result_evaluated places _).symm.trans htext⟩
  · rintro ⟨before, after, hlast, hkept, htext⟩
    exact ⟨before, after, hlast.keys_eq, (result_evaluated places _).trans htext,
      keepResult_iff.mpr ⟨hlast.notMem_after, hkept⟩⟩

/-! ## Reading the result line -/

theorem evaluationText_eq_errorText_iff {expression : Text} :
    evaluationText places expression = errorText ↔ roundedValue? places expression = none := by
  have h := @result_evaluated_eq_errorText_iff places ⟨expression, []⟩
  rwa [result_evaluated] at h

theorem errorText_ne_nil : errorText ≠ [] :=
  List.cons_ne_nil _ _

theorem isError_pressAll_iff_lastEvaluation {keys : List Key} :
    (pressAll places {} keys).isError = true ↔
      ∃ before after, LastEvaluation keys before after ∧ ¬ IsClearedSince places before after ∧
        roundedValue? places (pressAll places {} before).expression = none := by
  rw [isError, decide_eq_true_iff, result_pressAll_eq_iff_lastEvaluation errorText_ne_nil]
  simp only [evaluationText_eq_errorText_iff]

theorem copyable_ofKeypad_eq_some_iff {text : Text} :
    (Outcome.ofKeypad keypad).copyable = some text ↔
      keypad.result = text ∧ text ≠ [] ∧ text ≠ errorText := by
  have hcondition : (!keypad.isError && decide (keypad.result ≠ [])) = true ↔
      keypad.result ≠ [] ∧ keypad.result ≠ errorText := by
    rw [isError, Bool.and_eq_true, Bool.not_eq_true', decide_eq_false_iff_not, decide_eq_true_iff,
      and_comm]
  rw [Outcome.ofKeypad]
  dsimp only
  rw [Option.ite_none_right_eq_some, hcondition, Option.some_inj]
  constructor
  · rintro ⟨hshown, rfl⟩
    exact ⟨rfl, hshown⟩
  · rintro ⟨rfl, hshown⟩
    exact ⟨hshown, rfl⟩

theorem copyable_pressAll_eq_some_iff {keys : List Key} {text : Text} :
    (Outcome.ofKeypad (pressAll places {} keys)).copyable = some text ↔
      ∃ before after value, LastEvaluation keys before after ∧
        ¬ IsClearedSince places before after ∧
        roundedValue? places (pressAll places {} before).expression = some value ∧
        value.toText = text := by
  rw [copyable_ofKeypad_eq_some_iff]
  constructor
  · rintro ⟨hresult, hne, herror⟩
    obtain ⟨before, after, hlast, hkept, htext⟩ :=
      (result_pressAll_eq_iff_lastEvaluation hne).mp hresult
    cases hvalue : roundedValue? places (pressAll places {} before).expression with
    | none =>
      rw [evaluationText_eq_errorText_iff.mpr hvalue] at htext
      exact absurd htext.symm herror
    | some value =>
      rw [evaluationText, hvalue] at htext
      exact ⟨before, after, value, hlast, hkept, hvalue, htext⟩
  · rintro ⟨before, after, value, hlast, hkept, hvalue, rfl⟩
    have hfinite := isFinite_of_roundedValue? hvalue
    have htext : evaluationText places (pressAll places {} before).expression = value.toText := by
      rw [evaluationText, hvalue]
    exact ⟨(hlast.result_pressAll.2 hkept).trans htext, toText_ne_nil hfinite,
      toText_ne_errorText hfinite⟩

theorem display_of_copyable {text : Text} (h : (Outcome.ofKeypad keypad).copyable = some text) :
    keypad.display = text := by
  obtain ⟨rfl, hne, -⟩ := copyable_ofKeypad_eq_some_iff.mp h
  rw [display, if_pos hne]

/-- **The result line follows the history.** Whatever keys are pressed on a new keypad, the result
line is empty if none of them evaluates or if the result was cleared after the last evaluation, and
otherwise it is what that evaluation gave. An error is shown exactly if that evaluation failed and
nothing cleared it since, and a text is offered for copying exactly if it succeeded and nothing
cleared it since; the text is the one that is shown. -/
theorem result_follows_history (places : ℕ) (keys : List Key) :
    (.equals ∉ keys → (pressAll places {} keys).result = []) ∧
      (.equals ∈ keys → ∃ before after, LastEvaluation keys before after) ∧
      (∀ before after, LastEvaluation keys before after →
        (IsClearedSince places before after → (pressAll places {} keys).result = []) ∧
        (¬ IsClearedSince places before after → (pressAll places {} keys).result =
          evaluationText places (pressAll places {} before).expression)) ∧
      ((pressAll places {} keys).isError = true ↔
        ∃ before after, LastEvaluation keys before after ∧ ¬ IsClearedSince places before after ∧
          roundedValue? places (pressAll places {} before).expression = none) ∧
      ∀ text, ((Outcome.ofKeypad (pressAll places {} keys)).copyable = some text ↔
          ∃ before after value, LastEvaluation keys before after ∧
            ¬ IsClearedSince places before after ∧
            roundedValue? places (pressAll places {} before).expression = some value ∧
            value.toText = text) ∧
        ((Outcome.ofKeypad (pressAll places {} keys)).copyable = some text →
          (pressAll places {} keys).display = text) := by
  refine ⟨?_, exists_lastEvaluation, ?_, isError_pressAll_iff_lastEvaluation, ?_⟩
  · intro hequals
    exact result_pressAll_eq_nil hequals rfl
  · intro before after hlast
    exact hlast.result_pressAll
  · intro text
    exact ⟨copyable_pressAll_eq_some_iff, display_of_copyable⟩

/-- The result of `2 + 3` is offered while another digit is typed, and no longer when that is
deleted. -/
theorem copyable_two_plus_three :
    let keys : List Key := [.digit '2', .operator .add, .digit '3', .equals, .digit '4']
    (Outcome.ofKeypad (pressAll 12 {} keys)).copyable = some ['5'] ∧
      (pressAll 12 {} keys).display = ['5'] ∧
      (pressAll 12 {} (keys ++ [.delete])).result = [] := by
  have hlast : ∀ after, .equals ∉ after → LastEvaluation
      ([.digit '2', .operator .add, .digit '3'] ++ .equals :: after)
      [.digit '2', .operator .add, .digit '3'] after := fun _ h ↦ ⟨rfl, h⟩
  have hkeep : keepResult 12
      ((pressAll 12 {} [.digit '2', .operator .add, .digit '3']).evaluated 12) [.digit '4'] :=
    ⟨rfl, trivial⟩
  have hkept : ¬ IsClearedSince 12 [.digit '2', .operator .add, .digit '3'] [.digit '4'] :=
    (keepResult_iff.mp hkeep).2
  have hcleared :
      IsClearedSince 12 [.digit '2', .operator .add, .digit '3'] [.digit '4', .delete] :=
    ⟨[.digit '4'], .delete, [], rfl, rfl⟩
  obtain ⟨-, -, -, -, hcopyable⟩ := result_follows_history 12
    [.digit '2', .operator .add, .digit '3', .equals, .digit '4']
  have hfive := (hcopyable ['5']).1.mpr
    ⟨_, _, .ofRat 5, hlast _ (by decide), hkept, by decide +kernel, by decide +kernel⟩
  refine ⟨hfive, (hcopyable ['5']).2 hfive, ?_⟩
  exact ((result_follows_history 12 _).2.2.1 _ _ (hlast _ (by decide))).1 hcleared

end PocketCalculator.Keypad
