import Mathlib.Data.List.Induction
import Mathlib.Data.List.TakeWhile
import PocketCalculator.CommandLine.Report
import PocketCalculator.Proofs.Text.Lines
import PocketCalculator.Session.Lines

/-!
# Lines of an input and expressions

Expressions can be given together, or as the lines of an input. The input is bytes, and its lines are
read, calculated and shown one after the other, so that what can be read is calculated although a
later line cannot. This file shows that the two agree (`ofInput_eq_ofExpressions`): a session over an
input that is text is the session over its lines that are not blank, and one over any other input
shows the same as far as the first line that is no text.

The run over the lines has what calculations have left so far as a parameter. Lines that are text
take it from one such outcome to the next, and show in between what the expressions show
(`ofLines_map_encodeUtf8_append`); what comes after them makes no difference to that.

What such a session leaves is told by all of its calculations: it has failed if one of them has,
whatever came after, and the text to be copied is that of the last one that has a value.
-/

namespace PocketCalculator

/-! ## Blank lines -/

/-- The lines that have a character other than a blank. -/
def nonBlank (lines : List Text) : List Text :=
  lines.filter fun line ↦ line.any fun c ↦ !isBlank c

theorem trimLeft_eq_nil_iff {text : Text} : trimLeft text = [] ↔ ∀ c ∈ text, isBlank c = true := by
  rw [trimLeft, List.dropWhile_eq_nil_iff]

theorem trim_eq_nil_iff {text : Text} : trim text = [] ↔ ∀ c ∈ text, isBlank c = true := by
  rw [trim, List.reverse_eq_nil_iff, ← @trimLeft_eq_nil_iff text]
  constructor
  · intro h
    by_contra hne
    -- what is cut in front ends at a character that is no blank
    have hblank : isBlank ((trimLeft text).head hne) = true :=
      trimLeft_eq_nil_iff.mp h _ (List.mem_reverse.mpr (List.head_mem hne))
    exact Bool.false_ne_true ((List.head_dropWhile_not isBlank hne).symm.trans hblank)
  · intro h
    rw [h]
    rfl

theorem isEmpty_trim (text : Text) : (trim text).isEmpty = !text.any fun c ↦ !isBlank c := by
  rw [Bool.eq_iff_iff, List.isEmpty_iff, trim_eq_nil_iff]
  simp

theorem nonBlank_cons (line : Text) (lines : List Text) :
    nonBlank (line :: lines) =
      if (trim line).isEmpty then nonBlank lines else line :: nonBlank lines := by
  rw [nonBlank, List.filter_cons, isEmpty_trim, nonBlank]
  cases line.any fun c ↦ !isBlank c <;> rfl

/-! ## Lines that are no text -/

theorem exists_first_not_text {lines : List Bytes} (h : ∃ line ∈ lines, decodeUtf8? line = none) :
    ∃ (before : List Text) (bad : Bytes) (after : List Bytes),
      lines = before.map encodeUtf8 ++ bad :: after ∧ decodeUtf8? bad = none := by
  induction lines with
  | nil =>
    obtain ⟨line, hmem, -⟩ := h
    exact absurd hmem List.not_mem_nil
  | cons line lines ih =>
    rcases hline : decodeUtf8? line with _ | text
    · exact ⟨[], line, lines, rfl, hline⟩
    · have hlines : ∃ line ∈ lines, decodeUtf8? line = none := by
        obtain ⟨other, hmem, hother⟩ := h
        rcases List.mem_cons.mp hmem with rfl | hmem
        · rw [hline] at hother
          exact absurd hother (Option.some_ne_none text)
        · exact ⟨other, hmem, hother⟩
      obtain ⟨before, bad, after, rfl, hbad⟩ := ih hlines
      refine ⟨text :: before, bad, after, ?_, hbad⟩
      rw [decodeUtf8?_eq_some_iff.mp hline, List.map_cons, List.cons_append]

/-- An input is text exactly if each of its lines is. -/
theorem exists_decodeUtf8?_eq_none_iff {input : Bytes} :
    (∃ line ∈ splitLines 10 13 input, decodeUtf8? line = none) ↔ decodeUtf8? input = none := by
  constructor
  · rintro ⟨line, hmem, hnone⟩
    by_contra hne
    obtain ⟨text, htext⟩ := Option.ne_none_iff_exists'.mp hne
    rw [decodeUtf8?_eq_some_iff.mp htext, splitLines_encodeUtf8] at hmem
    obtain ⟨lineText, -, rfl⟩ := List.mem_map.mp hmem
    rw [decodeUtf8?_encodeUtf8] at hnone
    exact Option.some_ne_none lineText hnone
  · intro hnone
    by_contra hall
    have htexts : ∀ line ∈ splitLines 10 13 input, ∃ text, line = encodeUtf8 text := by
      intro line hmem
      obtain ⟨text, htext⟩ := Option.ne_none_iff_exists'.mp fun h ↦ hall ⟨line, hmem, h⟩
      exact ⟨text, decodeUtf8?_eq_some_iff.mp htext⟩
    obtain ⟨text, htext⟩ := exists_eq_encodeUtf8_of_lines htexts
    rw [decodeUtf8?_eq_some_iff.mpr htext] at hnone
    exact Option.some_ne_none text hnone

/-! ## What calculations leave -/

namespace Outcome

theorem add_failed (outcome : Outcome) (calculation : Calculation) :
    (outcome.add calculation).failed = (outcome.failed || calculation.plain?.isNone) := by
  rw [add]
  cases calculation.plain? with
  | none => exact (Bool.or_true _).symm
  | some plain => exact (Bool.or_false _).symm

theorem add_copyable (outcome : Outcome) (calculation : Calculation) :
    (outcome.add calculation).copyable = calculation.plain?.or outcome.copyable := by
  rw [add]
  cases calculation.plain? <;> rfl

/-- A failure stays, whatever is calculated after it. -/
theorem failed_ofCalculations_iff {calculations : List Calculation} :
    (ofCalculations calculations).failed = true ↔
      ∃ calculation ∈ calculations, calculation.value = none := by
  induction calculations using List.reverseRecOn with
  | nil => simp
  | append_singleton calculations last ih =>
    rw [ofCalculations_append_singleton, add_failed, Bool.or_eq_true, ih, Calculation.plain?]
    simp only [List.mem_append, List.mem_singleton, or_and_right, exists_or, exists_eq_left,
      Option.isNone_map, Option.isNone_iff_eq_none]

theorem copyable_ofCalculations (calculations : List Calculation) :
    (ofCalculations calculations).copyable = (calculations.filterMap Calculation.plain?).getLast? := by
  induction calculations using List.reverseRecOn with
  | nil => rfl
  | append_singleton calculations last ih =>
    rw [ofCalculations_append_singleton, add_copyable, ih, List.filterMap_append,
      List.getLast?_append, List.filterMap_cons, List.filterMap_nil]
    cases last.plain? <;> rfl

end Outcome

/-! ## Sessions -/

namespace Session

/-- Lines that are text are calculated as expressions, and the session goes on with the next one. -/
theorem ofLines_map_encodeUtf8_append (options : Options) (outcome : Outcome) (texts : List Text)
    (rest : List Bytes) :
    ofLines options outcome (texts.map encodeUtf8 ++ rest) =
      let calculations := calculateAll options (nonBlank texts)
      let session := ofLines options (calculations.foldl .add outcome) rest
      { session with lines := calculations.map Calculation.display ++ session.lines } := by
  induction texts generalizing outcome with
  | nil => rfl
  | cons line texts ih =>
    have hline := decodeUtf8?_encodeUtf8 line
    rw [List.map_cons, List.cons_append, nonBlank_cons]
    by_cases hblank : (trim line).isEmpty = true
    · rw [ofLines_blank _ hline hblank, if_pos hblank, ih]
    · rw [ofLines_expression _ hline hblank, if_neg hblank, ih]
      rfl

theorem ofLines_map_encodeUtf8 (options : Options) (texts : List Text) :
    ofLines options {} (texts.map encodeUtf8) = ofExpressions options (nonBlank texts) := by
  have h := ofLines_map_encodeUtf8_append options {} texts []
  dsimp only at h
  rwa [List.append_nil, ofLines, List.append_nil] at h

theorem ofLines_map_encodeUtf8_append_cons (options : Options) (before : List Text) {bad : Bytes}
    (hbad : decodeUtf8? bad = none) (after : List Bytes) :
    ofLines options {} (before.map encodeUtf8 ++ bad :: after) =
      { ofExpressions options (nonBlank before) with error := some .inputNotText } := by
  rw [ofLines_map_encodeUtf8_append]
  dsimp only
  rw [ofLines_not_text after hbad, List.append_nil]
  rfl

/-- **Lines as expressions.** The session over an input that is text is the session over those of
its lines that are not blank, and shows one line for each of them. If a line is no text, there is a
first one; the session shows what the lines before it show, and the run ends with status 1 and a
message. What a session leaves is told by all its calculations. -/
theorem ofInput_eq_ofExpressions (options : Options) (input : Bytes) :
    (∀ text, decodeUtf8? input = some text →
      ofInput options input = ofExpressions options (nonBlank (textLines text)) ∧
      (ofInput options input).lines =
        (nonBlank (textLines text)).map fun line ↦ (calculate options line).display) ∧
    (decodeUtf8? input = none ↔ ∃ line ∈ splitLines 10 13 input, decodeUtf8? line = none) ∧
    ((∃ line ∈ splitLines 10 13 input, decodeUtf8? line = none) →
      ∃ (before : List Text) (bad : Bytes) (after : List Bytes),
        splitLines 10 13 input = before.map encodeUtf8 ++ bad :: after ∧
        decodeUtf8? bad = none ∧
        ofInput options input =
          { ofExpressions options (nonBlank before) with error := some .inputNotText } ∧
        (ofInput options input).lines =
          (nonBlank before).map (fun line ↦ (calculate options line).display) ∧
        ∀ copied,
          (Report.ofSession (ofInput options input) copied).lines =
            (nonBlank before).map (fun line ↦ (calculate options line).display) ∧
          (Report.ofSession (ofInput options input) copied).status.code = 1 ∧
          (Report.ofSession (ofInput options input) copied).message =
            some "calcpad: Failed to read stdin: stream did not contain valid UTF-8".toList) ∧
    ∀ expressions,
      (ofExpressions options expressions).lines =
        expressions.map (fun expression ↦ (calculate options expression).display) ∧
      (ofExpressions options expressions).error = none ∧
      ((ofExpressions options expressions).outcome.failed = true ↔
        ∃ expression ∈ expressions, (calculate options expression).value = none) ∧
      (ofExpressions options expressions).outcome.copyable =
        (expressions.filterMap fun expression ↦ (calculate options expression).plain?).getLast? := by
  refine ⟨?_, exists_decodeUtf8?_eq_none_iff.symm, ?_, ?_⟩
  · intro text htext
    have hsession : ofInput options input = ofExpressions options (nonBlank (textLines text)) := by
      rw [ofInput, decodeUtf8?_eq_some_iff.mp htext, splitLines_encodeUtf8, ofLines_map_encodeUtf8]
    exact ⟨hsession, by rw [hsession, lines_ofExpressions]⟩
  · intro hbad
    obtain ⟨before, bad, after, hlines, hnone⟩ := exists_first_not_text hbad
    have hsession : ofInput options input =
        { ofExpressions options (nonBlank before) with error := some .inputNotText } := by
      rw [ofInput, hlines, ofLines_map_encodeUtf8_append_cons options before hnone]
    have hshown := lines_ofExpressions options (nonBlank before)
    refine ⟨before, bad, after, hlines, hnone, hsession, ?_⟩
    rw [hsession]
    exact ⟨hshown, fun _ ↦ ⟨hshown, rfl, rfl⟩⟩
  · intro expressions
    refine ⟨lines_ofExpressions options expressions, rfl, ?_⟩
    rw [ofExpressions]
    dsimp only
    rw [Outcome.failed_ofCalculations_iff, Outcome.copyable_ofCalculations, calculateAll,
      List.filterMap_map]
    exact ⟨by simp only [List.mem_map, exists_exists_and_eq_and], rfl⟩

/-- A blank line and the end of a line with a carriage return make no difference. The byte 255 is
no text, and ends a session after the line before it. -/
theorem ofInput_blank_line_and_broken_line :
    ofInput {} (encodeUtf8 "1+1\r\n \n5/0".toList) =
        ofExpressions {} ["1+1".toList, "5/0".toList] ∧
      (ofInput {} (encodeUtf8 "1+1\r\n \n5/0".toList)).lines = ["2".toList, "Error".toList] ∧
      (ofInput {} [55, 10, 255, 10, 56]).lines = ["7".toList] ∧
      (Report.ofSession (ofInput {} [55, 10, 255, 10, 56]) (.ok ())).status.code = 1 := by
  have htext := (ofInput_eq_ofExpressions {} _).1 _ (decodeUtf8?_encodeUtf8 "1+1\r\n \n5/0".toList)
  have hlines : nonBlank (textLines "1+1\r\n \n5/0".toList) = ["1+1".toList, "5/0".toList] := by
    decide +kernel
  rw [hlines] at htext
  have hbroken : ∃ line ∈ splitLines 10 13 [55, 10, 255, 10, 56], decodeUtf8? line = none :=
    ⟨[255], by decide +kernel, by decide +kernel⟩
  obtain ⟨before, bad, after, -, -, -, -, hreport⟩ :=
    (ofInput_eq_ofExpressions {} [55, 10, 255, 10, 56]).2.2.1 hbroken
  refine ⟨htext.1, ?_, by decide +kernel, (hreport (.ok ())).2.1⟩
  rw [htext.2]
  decide +kernel

end Session

end PocketCalculator
