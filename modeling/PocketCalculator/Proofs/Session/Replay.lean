import PocketCalculator.Proofs.Keypad.Typing
import PocketCalculator.Session.Replay

/-!
# Replaying an expression

An expression may be calculated as it is given, or its characters may be replayed as keys and the
expression on the keypad evaluated. For a chain of numbers and operators both lead to the same
result (`replay_chain`).
-/

namespace PocketCalculator

open Place

theorem trim_eq_self {text : Text} (h : ∀ c ∈ text, isBlank c = false) : trim text = text := by
  have hleft : ∀ {text : Text}, (∀ c ∈ text, isBlank c = false) → trimLeft text = text := by
    intro text h
    cases text with
    | nil => rfl
    | cons c rest =>
      exact List.dropWhile_cons_of_neg (by rw [h c List.mem_cons_self]; exact Bool.false_ne_true)
  rw [trim, hleft h, hleft fun c hc ↦ h c (List.mem_reverse.mp hc), List.reverse_reverse]

theorem replay_append {places : ℕ} {text label : Text} {keypad : Keypad} {key : Key}
    (h : replay places text = .ok keypad) (hlabel : label ≠ [])
    (hblank : ∀ c ∈ label, isBlank c = false) (hkey : Key.ofLabel? label = some key) :
    replay places (text ++ ' ' :: label) = .ok (keypad.press places key) := by
  rw [replay] at h
  cases hkeys : readKeys (words text) with
  | error error =>
    rw [hkeys] at h
    cases h
  | ok keys =>
    rw [hkeys] at h
    cases h
    have hwords : readKeys (words (text ++ ' ' :: label)) = .ok (keys ++ [key]) := by
      rw [readKeys_eq_ok_iff, words_append_blank (by decide), words_of_forall_not_blank hlabel hblank,
        List.map_append, List.map_append, readKeys_eq_ok_iff.mp hkeys, List.map_singleton,
        List.map_singleton, hkey]
    rw [replay, hwords]
    dsimp only
    rw [Keypad.pressAll_append, Keypad.pressAll_cons, Keypad.pressAll_nil]

/-- **Replaying a chain.** The characters of a chain of numbers, replayed as keys, type the chain.
With one more key for the evaluation, the keypad shows the plain text of the calculation of the
chain twice, or no expression and the error if the chain has no value. -/
theorem replay_chain (options : Options) {chain text : Text} (hchain : IsChain chain)
    (htext : words text = chain.map fun c ↦ [c]) :
    replay options.places text = .ok ⟨chain, []⟩ ∧
      replay options.places (text ++ [' ', '=']) =
        .ok (match (calculate options chain).plain? with
          | some plain => ⟨plain, plain⟩
          | none => ⟨[], errorText⟩) := by
  obtain ⟨p, hp, -⟩ := hchain.exists_after?
  obtain ⟨keys, hkeys, hpressed⟩ := exists_pressAll_eq options.places [] hp hchain.isFirst
  have hreplay : replay options.places text = .ok ⟨chain, []⟩ := by
    have hread : readKeys (words text) = .ok keys := by
      rw [readKeys_eq_ok_iff, htext, List.map_map]
      exact hkeys
    rw [replay, hread]
    exact congrArg Except.ok hpressed
  refine ⟨hreplay, ?_⟩
  have hkey : Key.ofLabel? ['='] = some .equals := rfl
  have hequals := replay_append hreplay (List.cons_ne_nil '=' [])
    (List.forall_mem_singleton.mpr (by decide)) hkey
  rw [hequals, Keypad.press, Keypad.evaluated, Calculation.plain?, calculate,
    trim_eq_self hchain.isBlank_of_mem]
  dsimp only
  cases roundedValue? options.places chain <;> rfl

/-- The keys of `-1.5*2.` show what calculating it gives. -/
theorem replay_negative_one_point_five_times_two :
    replay 12 "- 1 . 5 * 2 .".toList = .ok ⟨"-1.5*2.".toList, []⟩ ∧
      replay 12 "- 1 . 5 * 2 . =".toList = .ok ⟨['-', '3'], ['-', '3']⟩ := by
  have honly : ∀ c : Char, c.isDigit = true → ∀ d ∈ [c], d.isDigit = true := fun c hc ↦
    List.forall_mem_singleton.mpr hc
  have hchain : IsChain ['-', '1', '.', '5', '*', '2', '.'] :=
    .operator (.number true (.pointed (List.cons_ne_nil _ _) (honly '1' rfl) (honly '5' rfl)))
      .multiply (.pointed (List.cons_ne_nil _ _) (honly '2' rfl) fun _ h ↦ absurd h List.not_mem_nil)
  have hwords : words "- 1 . 5 * 2 .".toList =
      ['-', '1', '.', '5', '*', '2', '.'].map fun c ↦ [c] := by decide +kernel
  obtain ⟨htyped, hequals⟩ := replay_chain {} hchain hwords
  have hplain : (calculate {} ['-', '1', '.', '5', '*', '2', '.']).plain? = some ['-', '3'] := by
    decide +kernel
  rw [hplain] at hequals
  exact ⟨htyped, hequals⟩

end PocketCalculator
