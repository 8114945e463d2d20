import Mathlib.Data.List.TakeWhile
import Mathlib.Tactic.SplitIfs
import PocketCalculator.Proofs.Expression.Grammar

/-!
# Reading loses nothing

Reading a text never fails, and what it makes of a text it does not understand are fewer tokens. The
tokens, written one after another, are the text without the characters that mean nothing to the
calculator (`flatMap_text_scan`). So nothing is passed over in a text exactly if all of its
characters mean something (`flatMap_text_scan_eq_iff`).
-/

namespace PocketCalculator

/-- Whether a character means anything to the calculator: it can be part of a number, or it is a
token by itself. -/
def isMeaningful (c : Char) : Bool :=
  isNumeralChar c || (Token.ofChar? c).isSome

theorem isMeaningful_of_isNumeralChar {c : Char} (h : isNumeralChar c = true) :
    isMeaningful c = true :=
  Bool.or_eq_true_iff.mpr (.inl h)

@[simp] theorem isMeaningful_symbol (op : Operator) : isMeaningful op.symbol = true := by
  rw [isMeaningful, ofChar?_symbol]
  exact Bool.or_true _

theorem Token.text_of_ofChar? {c : Char} {token : Token} (h : ofChar? c = some token) :
    token.text = [c] := by
  rw [ofChar?] at h
  split_ifs at h with hopen hclose
  · cases h
    exact congrArg (fun d ↦ [d]) hopen.symm
  · cases h
    exact congrArg (fun d ↦ [d]) hclose.symm
  · obtain ⟨op, hop, rfl⟩ := Option.map_eq_some_iff.mp h
    exact congrArg (fun d ↦ [d]) (Operator.ofSymbol?_eq_some_iff.mp hop).symm

theorem Token.ne_number_of_ofChar? {c : Char} {token : Token} (h : ofChar? c = some token) :
    ∀ text, token ≠ .number text := by
  rw [ofChar?] at h
  split_ifs at h with hopen hclose
  · cases h
    exact fun _ ↦ Token.noConfusion
  · cases h
    exact fun _ ↦ Token.noConfusion
  · obtain ⟨op, -, rfl⟩ := Option.map_eq_some_iff.mp h
    exact fun _ ↦ Token.noConfusion

theorem isMeaningful_of_isBlank {c : Char} (h : isBlank c = true) : isMeaningful c = false := by
  rw [isMeaningful, Bool.or_eq_false_iff, Option.isSome_eq_false_iff, Option.isNone_iff_eq_none]
  constructor
  · rw [← Bool.not_eq_true]
    intro hnumeral
    rw [isBlank_of_isNumeralChar hnumeral] at h
    exact absurd h Bool.false_ne_true
  · rw [Token.ofChar?]
    split_ifs with hopen hclose
    · rw [hopen] at h
      exact absurd h (by decide)
    · rw [hclose] at h
      exact absurd h (by decide)
    · rw [Option.map_eq_none_iff, Option.eq_none_iff_forall_ne_some]
      intro op hop
      rw [Operator.ofSymbol?_eq_some_iff.mp hop, isBlank_symbol] at h
      exact absurd h Bool.false_ne_true

theorem filter_takeWhile_append_filter_dropWhile (text : Text) :
    text.takeWhile isNumeralChar ++ (text.dropWhile isNumeralChar).filter isMeaningful =
      text.filter isMeaningful := by
  have hrun : (text.takeWhile isNumeralChar).filter isMeaningful =
      text.takeWhile isNumeralChar :=
    List.filter_eq_self.mpr fun c hc ↦ isMeaningful_of_isNumeralChar (List.mem_takeWhile_imp hc)
  calc text.takeWhile isNumeralChar ++ (text.dropWhile isNumeralChar).filter isMeaningful
      = (text.takeWhile isNumeralChar ++ text.dropWhile isNumeralChar).filter isMeaningful := by
        rw [List.filter_append, hrun]
    _ = text.filter isMeaningful := by rw [List.takeWhile_append_dropWhile]

/-- The tokens of a text without blanks, one case for each way of going on. -/
theorem flatMap_text_scanFrom (operandNext : Bool) (text : Text) :
    (scanFrom operandNext text).flatMap Token.text = text.filter isMeaningful := by
  fun_induction scanFrom operandNext text with
  | case1 => rfl
  | case2 operandNext c rest digits afterDigits hc ih =>
    rw [List.flatMap_cons, ih, List.filter_cons_of_pos (isMeaningful_of_isNumeralChar hc)]
    exact congrArg (c :: ·) (filter_takeWhile_append_filter_dropWhile rest)
  | case3 operandNext c rest digits afterDigits hc hsign ih =>
    have hminus : c = Operator.subtract.symbol := by
      simp only [Bool.and_eq_true, decide_eq_true_eq] at hsign
      exact hsign.1.1
    have hmeaningful : isMeaningful c = true := hminus ▸ isMeaningful_symbol .subtract
    rw [List.flatMap_cons, ih, List.filter_cons_of_pos hmeaningful]
    exact congrArg (c :: ·) (filter_takeWhile_append_filter_dropWhile rest)
  | case4 operandNext c rest digits hc hsign token htoken ih =>
    have hmeaningful : isMeaningful c = true := by
      rw [isMeaningful, htoken]
      exact Bool.or_true _
    rw [List.flatMap_cons, ih, Token.text_of_ofChar? htoken, List.filter_cons_of_pos hmeaningful]
    rfl
  | case5 operandNext c rest digits hc hsign htoken ih =>
    have hmeaningless : ¬ isMeaningful c = true := by
      rw [isMeaningful, htoken, Option.isSome_none, Bool.or_false]
      exact hc
    rw [ih, List.filter_cons_of_neg hmeaningless]

/-- **Reading loses nothing.** The tokens of a text are the text without the characters that mean
nothing. -/
theorem flatMap_text_scan (text : Text) :
    (scan text).flatMap Token.text = text.filter isMeaningful := by
  rw [scan, flatMap_text_scanFrom, List.filter_filter]
  refine List.filter_congr fun c _ ↦ ?_
  cases hblank : isBlank c with
  | false => rw [Bool.not_false, Bool.and_true]
  | true => rw [isMeaningful_of_isBlank hblank, Bool.false_and]

theorem flatMap_text_scan_eq_iff {text : Text} :
    (scan text).flatMap Token.text = text ↔ ∀ c ∈ text, isMeaningful c = true := by
  rw [flatMap_text_scan, List.filter_eq_self]

end PocketCalculator
