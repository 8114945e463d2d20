import PocketCalculator.Proofs.Keypad.Shown

/-!
# Percent

Percent divides the number at the end of the expression by a hundred: the run of digits and points
that the expression ends with is replaced by the text of a hundredth of its value. What stands in
front of the run is not part of that number.

But a minus in front of the run is taken to the number, sign or operator, and is expected to come
back with the text of the quotient, which is then negative. It does, unless the quotient is zero,
because a zero is written without a sign. So `5-0` becomes `50`, and a number so small that its
hundredth is zero loses the minus in front of it as well (`takePercent?_run`).

Otherwise the run is rewritten and nothing else, as long as it is a number in positional notation.
It always is, unless an infinity was divided before and something was typed after its text
(`press_percent_eq_iff`).
-/

namespace PocketCalculator

open Place
open Binary64 (signText)

/-! ## The digits of an expression -/

/-- Whether the only digits of a text are the ten that numbers are written with. -/
def HasTenDigits (text : Text) : Prop :=
  ∀ c ∈ text, isDecimalDigit c = true → c.isDigit = true

variable {text rest : Text}

theorem hasTenDigits_iff :
    HasTenDigits text ↔ text.all (fun c ↦ !isDecimalDigit c || c.isDigit) = true := by
  rw [List.all_eq_true]
  refine forall₂_congr fun c _ ↦ ?_
  rw [Bool.or_eq_true, Bool.not_eq_true', ← Bool.not_eq_true, imp_iff_not_or]

theorem HasTenDigits.append (h : HasTenDigits text) (hrest : HasTenDigits rest) :
    HasTenDigits (text ++ rest) :=
  List.forall_mem_append.mpr ⟨h, hrest⟩

theorem HasTenDigits.of_sublist (h : HasTenDigits text) (hrest : rest.Sublist text) :
    HasTenDigits rest :=
  fun c hc ↦ h c (hrest.subset hc)

theorem hasTenDigits_of_isNumeralChar (h : ∀ c ∈ text, isNumeralChar c = true) :
    HasTenDigits text := by
  intro c hc hdigit
  rcases Bool.or_eq_true_iff.mp (h c hc) with hc | hdot
  · exact hc
  · rw [of_decide_eq_true hdot] at hdigit
    exact absurd hdigit (by decide)

theorem hasTenDigits_symbol (op : Operator) : HasTenDigits [op.symbol] := by
  rw [hasTenDigits_iff]
  cases op <;> rfl

theorem hasTenDigits_toText (x : Binary64) : HasTenDigits x.toText := by
  have hsign : ∀ negative, HasTenDigits (signText negative) := by
    rintro (_ | _) <;> exact hasTenDigits_iff.mpr rfl
  by_cases hfinite : x.isFinite = true
  · obtain ⟨negative, text, htext, heq⟩ := Binary64.exists_isPositional_toText hfinite
    rw [heq]
    exact (hsign negative).append (hasTenDigits_of_isNumeralChar htext.isNumeralChar_of_mem)
  · cases x with
    | finite negative m => exact absurd rfl hfinite
    | infinite negative => exact (hsign negative).append (hasTenDigits_iff.mpr rfl)
    | nan => exact hasTenDigits_iff.mpr rfl

/-- **One key** puts no digits into the expression but the ten. -/
theorem HasTenDigits.press {places : ℕ} {keypad : Keypad} {key : Key}
    (h : HasTenDigits keypad.expression) (hdigit : ∀ c, key = .digit c → c.isDigit = true) :
    HasTenDigits (keypad.press places key).expression := by
  have hnil : HasTenDigits [] := hasTenDigits_iff.mpr rfl
  cases key with
  | clear => exact hnil
  | delete => exact h.of_sublist (List.dropLast_sublist _)
  | digit c =>
    refine h.append fun d hd _ ↦ ?_
    rw [List.mem_singleton.mp hd]
    exact hdigit c rfl
  | dot =>
    rw [Keypad.press, Keypad.typeDot]
    split_ifs
    · exact h
    · exact h.append (hasTenDigits_iff.mpr rfl)
    · exact h.append (hasTenDigits_iff.mpr rfl)
  | operator op =>
    rw [Keypad.press]
    rcases Keypad.typeOperator_cases keypad.expression op with
      ⟨before, last, hbefore, -, heq⟩ | ⟨-, -, heq⟩ | ⟨-, -, heq⟩
    · rw [hbefore] at h
      rw [heq]
      exact (h.of_sublist (List.sublist_append_left before [last])).append (hasTenDigits_symbol op)
    · rw [heq]
      exact hnil
    · rw [heq]
      exact h.append (hasTenDigits_symbol op)
  | equals =>
    rw [Keypad.press, Keypad.evaluated]
    cases roundedValue? places keypad.expression with
    | none => exact hnil
    | some value => exact hasTenDigits_toText value
  | percent =>
    rw [Keypad.press]
    cases hpercent : Keypad.takePercent? keypad.expression with
    | none => exact h
    | some percent =>
      obtain ⟨before, number, value, hnumber, -, rfl⟩ := Keypad.takePercent?_eq_some hpercent
      rw [← append_of_splitTail? hnumber] at h
      exact (h.of_sublist (List.sublist_append_left before number)).append (hasTenDigits_toText _)

theorem hasTenDigits_pressAll (places : ℕ) {labels : List Text} {keys : List Key}
    (hkeys : labels.map Key.ofLabel? = keys.map some) :
    HasTenDigits (Keypad.pressAll places {} keys).expression := by
  refine Keypad.pressAll_induction (P := fun keypad ↦ HasTenDigits keypad.expression)
    (hasTenDigits_iff.mpr rfl) fun keypad h key hkey ↦ h.press ?_
  rintro c rfl
  exact isDigit_of_digit_mem hkeys hkey

/-! ## A hundredth -/

theorem toText_neg_of_positive {x : Binary64}
    (hx : (∃ m, x = .finite false m) ∨ x = .infinite false) :
    (-x).toText = if x.isZero then ['0'] else '-' :: x.toText := by
  rcases hx with ⟨m, rfl⟩ | rfl
  · by_cases hm : m = .zero
    · have hzero : (Binary64.finite false m).isZero = true := decide_eq_true hm
      rw [if_pos hzero, hm]
      exact Binary64.toText_zero true
    · have hzero : ¬ (Binary64.finite false m).isZero = true := fun h ↦ hm (of_decide_eq_true h)
      rw [if_neg hzero]
      exact Binary64.toText_neg hm
  · rfl

theorem round_false (q : ℚ) :
    (∃ m, Binary64.round false q = .finite false m) ∨
      Binary64.round false q = .infinite false := by
  by_cases hq : nearestCode q < infinityCode
  · exact .inl ⟨_, Binary64.round_of_lt hq false⟩
  · exact .inr (Binary64.round_of_le (not_lt.mp hq) false)

theorem round_false_div_hundred (q : ℚ) :
    (∃ m, Binary64.round false q / 100 = .finite false m) ∨
      Binary64.round false q / 100 = .infinite false := by
  rcases round_false q with ⟨m, hm⟩ | hinfinite
  · obtain ⟨q', hq'⟩ := exists_finite_div_hundred false m
    rw [hm, hq']
    exact round_false q'
  · rw [hinfinite, infinite_div_hundred]
    exact .inr rfl

/-- A hundredth of a number with a minus has the minus as well, unless it is zero. -/
theorem toText_round_div_hundred (negative : Bool) (q : ℚ) :
    (Binary64.round negative q / 100).toText =
      if (Binary64.round false q / 100).isZero then ['0']
      else signText negative ++ (Binary64.round false q / 100).toText := by
  cases negative with
  | true =>
    have hround : Binary64.round true q = -Binary64.round false q := Binary64.round_not false q
    rw [hround, Binary64.neg_div_eq, Binary64.signText_true_append]
    exact toText_neg_of_positive (round_false_div_hundred q)
  | false =>
    split_ifs with hzero
    · obtain ⟨s, hs⟩ := Binary64.isZero_iff.mp hzero
      rw [hs, Binary64.toText_zero]
    · rw [Binary64.signText_false_append]

theorem IsPositional.exists_readNumber?_eq_round {run : Text} (h : IsPositional run) :
    ∃ q : ℚ, numberValue run = .round false q ∧
      ∀ negative, readNumber? (signText negative ++ run) = some (.round negative q) := by
  obtain ⟨q, hq⟩ := h.exists_readNumber?
  refine ⟨q, ?_, hq⟩
  have hpositive : readNumber? run = some (.round false q) := hq false
  rw [numberValue, hpositive, Option.getD_some]

/-- Whether percent loses the minus in front of a run: it is taken to the run as a sign, and a
hundredth of the run is zero. -/
def LosesMinus (before run : Text) : Prop :=
  before.getLast? = some '-' ∧ (numberValue run / 100).isZero = true

instance (before run : Text) : Decidable (LosesMinus before run) :=
  inferInstanceAs (Decidable (_ ∧ _))

/-- **Percent** replaces a run in positional notation by a hundredth of it, or by a zero where the
minus in front of it is lost. -/
theorem takePercent?_run {before run : Text} (h : IsPositional run)
    (hlast : ∀ c, before.getLast? = some c → ¬ (isDecimalDigit c = true ∨ c = '.')) :
    Keypad.takePercent? (before ++ run) =
      some (if LosesMinus before run then before.dropLast ++ ['0']
        else before ++ (numberValue run / 100).toText) := by
  obtain ⟨rest, negative, hbefore, hminus, hsplit⟩ :=
    splitTail?_run (fun _ ↦ isPartialNumber_of_isCompleteNumber) hlast h.isCompleteNumber_eq
  obtain ⟨q, hvalue, hread⟩ := h.exists_readNumber?_eq_round
  rw [Keypad.takePercent?, trailingNumber?, hsplit]
  dsimp only
  rw [hread, Option.map_some, toText_round_div_hundred, ← hvalue]
  by_cases hzero : (numberValue run / 100).isZero = true
  · rw [if_pos hzero]
    cases negative with
    | true =>
      have hrest : before.dropLast = rest := by
        rw [hbefore]
        exact List.dropLast_concat
      have hloses : LosesMinus before run := ⟨hminus.mp rfl, hzero⟩
      rw [if_pos hloses, hrest]
    | false =>
      obtain ⟨s, hs⟩ := Binary64.isZero_iff.mp hzero
      have hkeeps : ¬ LosesMinus before run := fun h ↦ Bool.false_ne_true (hminus.mpr h.1)
      rw [if_neg hkeeps, hs, Binary64.toText_zero, hbefore]
      exact congrArg some (congrArg (· ++ ['0']) (List.append_nil rest).symm)
  · have hkeeps : ¬ LosesMinus before run := fun h ↦ hzero h.2
    rw [if_neg hzero, if_neg hkeeps, hbefore, List.append_assoc]

/-! ## Only numbers in positional notation -/

theorem isPositional_dropMinus {number : Text} (hform : isCompleteNumber number = true)
    (hdigits : HasTenDigits number) : IsPositional (dropMinus number) := by
  obtain ⟨hpartial, hhead⟩ := Bool.and_eq_true_iff.mp hform
  have hdigits : HasTenDigits (dropMinus number) :=
    fun c hc ↦ hdigits c ((dropMinus_suffix number).mem hc)
  rw [isPartialNumber] at hpartial
  generalize dropMinus number = run at hdigits hpartial hhead
  have hwhole : run.takeWhile isDecimalDigit ≠ [] := by
    obtain ⟨c, hc, hdigit⟩ := (Option.any_eq_true _ _).mp hhead
    obtain ⟨rest, rfl⟩ := List.head?_eq_some_iff.mp hc
    rw [List.takeWhile_cons_of_pos hdigit]
    exact List.cons_ne_nil _ _
  have hwhole_digits : ∀ c ∈ run.takeWhile isDecimalDigit, c.isDigit = true := fun c hc ↦
    hdigits c ((List.takeWhile_sublist _).subset hc) (List.mem_takeWhile_imp hc)
  rw [← List.takeWhile_append_dropWhile (p := isDecimalDigit) (l := run)]
  rcases hrest : run.dropWhile isDecimalDigit with _ | ⟨point, fraction⟩
  · rw [List.append_nil]
    exact .whole hwhole hwhole_digits
  · rw [hrest] at hpartial
    obtain ⟨hpoint, hfraction⟩ := Bool.and_eq_true_iff.mp hpartial
    rw [of_decide_eq_true hpoint]
    refine .pointed hwhole hwhole_digits fun c hc ↦ ?_
    have hmem : c ∈ run.dropWhile isDecimalDigit := hrest ▸ List.mem_cons_of_mem _ hc
    exact hdigits c ((List.dropWhile_sublist _).subset hmem) (List.all_eq_true.mp hfraction c hc)

theorem isPositional_toText {x : Binary64} {c : Char} {rest : Text} (htext : x.toText = c :: rest)
    (hc : isNumeralChar c = true) : x ≠ .nan ∧ IsPositional x.toText := by
  have hsign : ∀ tail : Text, x.toText ≠ signText true ++ tail := by
    intro tail heq
    rw [htext] at heq
    rw [(List.cons.inj heq).1] at hc
    exact absurd hc (by decide)
  by_cases hfinite : x.isFinite = true
  · obtain ⟨negative, text, hpositional, heq⟩ := Binary64.exists_isPositional_toText hfinite
    cases negative with
    | true => exact absurd heq (hsign text)
    | false =>
      rw [Binary64.signText_false_append] at heq
      refine ⟨fun hnan ↦ ?_, heq ▸ hpositional⟩
      rw [hnan] at hfinite
      exact absurd hfinite Bool.false_ne_true
  · cases x with
    | finite negative m => exact absurd rfl hfinite
    | infinite negative =>
      cases negative with
      | true => exact absurd rfl (hsign ['i', 'n', 'f'])
      | false =>
        rw [← (List.cons.inj htext).1] at hc
        exact absurd hc (by decide)
    | nan =>
      rw [← (List.cons.inj htext).1] at hc
      exact absurd hc (by decide)

/-- A run is in positional notation if the text of a hundredth of its value starts as it does. -/
theorem isPositional_of_toText_div_hundred {c : Char} {run tail : Text}
    (hrun : ∀ d ∈ c :: run, isNumeralChar d = true)
    (htext : (numberValue (c :: run) / 100).toText = c :: tail) : IsPositional (c :: run) := by
  obtain ⟨hvalue, hpositional⟩ := isPositional_toText htext (hrun c List.mem_cons_self)
  have hread : readNumber? (c :: run) ≠ none := by
    intro hnone
    rw [numberValue, hnone, Option.getD_none, Binary64.nan_div] at hvalue
    exact hvalue rfl
  have hdigit : c.isDigit = true := by
    obtain ⟨d, rest, heq, hd⟩ := hpositional.exists_cons
    rw [htext] at heq
    rwa [(List.cons.inj heq).1]
  refine isPositional_of_readNumber? hdigit (fun d hd ↦ ?_) hread
  have hd := hrun d (List.mem_cons_of_mem c hd)
  exact (Bool.or_eq_true_iff.mp hd).imp_right of_decide_eq_true

/-- What ends with a run has the form of a number only if nothing but a minus is in front of the
run. -/
theorem dropMinus_append_run {front run : Text} (hform : isPartialNumber (front ++ run) = true)
    (hfront : ∀ c, front.getLast? = some c → ¬ (isDecimalDigit c = true ∨ c = '.'))
    (hrun : dropMinus run = run) : dropMinus (front ++ run) = run := by
  rcases List.eq_nil_or_concat' front with rfl | ⟨front, c, rfl⟩
  · exact hrun
  · have hc : c ∉ dropMinus (front ++ [c] ++ run) := fun hmem ↦
      hfront c List.getLast?_concat (isDecimalDigit_or_eq_of_mem hform hmem)
    rcases front with _ | ⟨d, front⟩
    · by_cases hminus : c = '-'
      · rw [hminus]
        rfl
      · exact absurd (mem_dropMinus List.mem_cons_self hminus) hc
    · refine absurd (mem_dropMinus_cons ?_) hc
      exact List.mem_append_left run (List.mem_append_right front List.mem_cons_self)

section
variable {places : ℕ} {keypad : Keypad} {before run after : Text}

theorem IsRun.not_isDecimalDigit (hrun : IsRun before run after) (hdigits : HasTenDigits before) :
    ∀ c, before.getLast? = some c → ¬ (isDecimalDigit c = true ∨ c = '.') := by
  intro c hc hdigit
  have hnumeral : isNumeralChar c = true :=
    Bool.or_eq_true_iff.mpr (hdigit.imp (hdigits c (List.mem_of_getLast? hc)) decide_eq_true)
  exact Bool.false_ne_true ((hrun.before_last c hc).symm.trans hnumeral)

theorem IsRun.dropMinus_eq (hrun : IsRun before run after) : dropMinus run = run :=
  dropMinus_signText_append false fun hminus ↦
    absurd (hrun.isNumeralChar_of_mem '-' hminus) (by decide)

theorem isRun_concat_minus (hne : run ≠ []) (hrun : ∀ c ∈ run, isNumeralChar c = true) :
    IsRun (before ++ ['-']) run [] where
  ne_nil := hne
  isNumeralChar_of_mem := hrun
  before_last := by
    intro c hc
    rw [List.getLast?_concat] at hc
    rw [← Option.some_inj.mp hc]
    rfl
  after_head := fun c hc ↦ absurd hc.symm (Option.some_ne_none c)

theorem isPositional_of_press_percent (hexpression : keypad.expression = before ++ run)
    (hdigits : HasTenDigits keypad.expression) (hrun : IsRun before run [])
    (h : (keypad.press places .percent).expression = before ++ (numberValue run / 100).toText) :
    IsPositional run := by
  obtain ⟨c, tail, rfl⟩ := List.exists_cons_of_ne_nil hrun.ne_nil
  rw [Keypad.press] at h
  rcases hpercent : Keypad.takePercent? keypad.expression with _ | percent
  · rw [hpercent] at h
    exact isPositional_of_toText_div_hundred hrun.isNumeralChar_of_mem
      (List.append_cancel_left (h.symm.trans hexpression))
  · rw [hpercent] at h
    obtain ⟨front, number, value, hnumber, -, rfl⟩ := Keypad.takePercent?_eq_some hpercent
    have hsplit : front ++ number = keypad.expression := append_of_splitTail? hnumber
    have hform : isCompleteNumber number = true := holds_of_splitTail? hnumber
    have hpositional : IsPositional (dropMinus number) :=
      isPositional_dropMinus hform (hdigits.of_sublist (hsplit ▸ List.sublist_append_right ..))
    rcases List.append_eq_append_iff.mp (hsplit.trans hexpression) with
      ⟨sign, rfl, rfl⟩ | ⟨_ | ⟨d, part⟩, rfl, hpart⟩
    · -- the number is the run and the end of what is in front of it
      have hbefore := hrun.not_isDecimalDigit
        (hdigits.of_sublist (hexpression ▸ List.sublist_append_left ..))
      have hsign : ∀ c, sign.getLast? = some c → ¬ (isDecimalDigit c = true ∨ c = '.') := by
        refine fun c hc ↦ hbefore c ?_
        rw [List.getLast?_append, hc]
        rfl
      rwa [dropMinus_append_run (isPartialNumber_of_isCompleteNumber hform) hsign
        hrun.dropMinus_eq] at hpositional
    · obtain rfl : c :: tail = number := hpart
      rwa [hrun.dropMinus_eq] at hpositional
    · -- the number is the end of the run, but the text of a hundredth of the run starts like the run
      obtain ⟨rfl, -⟩ := List.cons.inj hpart
      exact isPositional_of_toText_div_hundred hrun.isNumeralChar_of_mem
        (List.append_cancel_left ((List.append_assoc ..).symm.trans h)).symm

end

/-! ## Percent in a session -/

/-- **Percent rewrites the number at the end.** Whatever keys are pressed by their labels, if the
expression ends with a run of digits and points, then percent puts a hundredth of it into its place,
and does nothing else but clear the result, exactly if the run is in positional notation and the
minus in front of it is not lost. The first is always so unless an infinity has been divided. If the
minus is lost, it alone is, and a zero is left in the place of both. -/
theorem press_percent_eq_iff (places : ℕ) {labels : List Text} {keys : List Key}
    (hkeys : labels.map Key.ofLabel? = keys.map some) {before run : Text}
    (hexpression : (Keypad.pressAll places {} keys).expression = before ++ run)
    (hrun : IsRun before run []) :
    ((Keypad.pressAll places {} keys).press places .percent =
          ⟨before ++ (numberValue run / 100).toText, []⟩ ↔
        IsPositional run ∧ ¬ LosesMinus before run) ∧
      (¬ DividesInfinity places keys → IsPositional run) ∧
      (IsPositional run → LosesMinus before run →
        (Keypad.pressAll places {} keys).press places .percent = ⟨before.dropLast ++ ['0'], []⟩) := by
  have hdigits := hasTenDigits_pressAll places hkeys
  have hbefore := hrun.not_isDecimalDigit
    (hdigits.of_sublist (hexpression ▸ List.sublist_append_left before run))
  have hpress : IsPositional run → (Keypad.pressAll places {} keys).press places .percent =
      if LosesMinus before run then ⟨before.dropLast ++ ['0'], []⟩
      else ⟨before ++ (numberValue run / 100).toText, []⟩ := by
    intro hpositional
    rw [Keypad.press, hexpression, takePercent?_run hpositional hbefore]
    by_cases hminus : LosesMinus before run
    · rw [if_pos hminus, if_pos hminus]
    · rw [if_neg hminus, if_neg hminus]
  refine ⟨⟨fun h ↦ ?_, ?_⟩, fun h ↦ ?_, fun hpositional hminus ↦ ?_⟩
  · have hpositional :=
      isPositional_of_press_percent hexpression hdigits hrun (congrArg Keypad.expression h)
    refine ⟨hpositional, fun hminus ↦ ?_⟩
    obtain ⟨s, hs⟩ := Binary64.isZero_iff.mp hminus.2
    obtain ⟨front, rfl⟩ := List.getLast?_eq_some_iff.mp hminus.1
    rw [hpress hpositional, if_pos hminus, hs, Binary64.toText_zero, List.dropLast_concat] at h
    have hfront := List.append_cancel_right (congrArg Keypad.expression h)
    exact List.cons_ne_nil _ _ (List.self_eq_append_right.mp hfront)
  · rintro ⟨hpositional, hminus⟩
    rw [hpress hpositional, if_neg hminus]
  · obtain ⟨p, hp⟩ := canBeTyped_of_not_dividesInfinity hkeys h List.prefix_rfl
    rw [hexpression] at hp
    exact isPositional_of_isRun hrun (by rwa [List.append_nil])
  · rw [hpress hpositional, if_pos hminus]

/-- In `200-5` the five is divided, and the minus in front of it comes back. -/
theorem press_percent_two_hundred_minus_five :
    let keys : List Key := [.digit '2', .digit '0', .digit '0', .operator .subtract, .digit '5']
    (Keypad.pressAll 12 {} keys).expression = ['2', '0', '0', '-', '5'] ∧
      (Keypad.pressAll 12 {} keys).press 12 .percent =
        ⟨['2', '0', '0', '-', '0', '.', '0', '5'], []⟩ := by
  intro keys
  have hkeys : [['2'], ['0'], ['0'], ['-'], ['5']].map Key.ofLabel? = keys.map some := by decide
  have hexpression : (Keypad.pressAll 12 {} keys).expression = ['2', '0', '0', '-'] ++ ['5'] := rfl
  have hrun : IsRun (['2', '0', '0'] ++ ['-']) ['5'] [] :=
    isRun_concat_minus (List.cons_ne_nil _ _) (List.all_eq_true.mp rfl)
  have hpositional : IsPositional ['5'] :=
    .whole (List.cons_ne_nil _ _) (List.all_eq_true.mp rfl)
  have hminus : ¬ LosesMinus ['2', '0', '0', '-'] ['5'] := by decide +kernel
  have htext : (numberValue ['5'] / 100).toText = ['0', '.', '0', '5'] := by decide +kernel
  have hpress := (press_percent_eq_iff 12 hkeys hexpression hrun).1.mpr ⟨hpositional, hminus⟩
  rw [htext] at hpress
  exact ⟨hexpression, hpress⟩

/-- A hundredth of the zero in `5-0` is put into the place of `-0`. -/
theorem exists_minus_that_is_lost :
    ∃ (labels : List Text) (keys : List Key) (before run : Text),
      labels.map Key.ofLabel? = keys.map some ∧
      (Keypad.pressAll 12 {} keys).expression = before ++ run ∧ IsRun before run [] ∧
      before ++ (numberValue run / 100).toText = ['5', '-', '0'] ∧
      (Keypad.pressAll 12 {} keys).press 12 .percent = ⟨['5', '0'], []⟩ := by
  have hrun : IsRun (['5'] ++ ['-']) ['0'] [] :=
    isRun_concat_minus (List.cons_ne_nil _ _) (List.all_eq_true.mp rfl)
  exact ⟨[['5'], ['-'], ['0']], [.digit '5', .operator .subtract, .digit '0'], ['5', '-'], ['0'],
    by decide, rfl, hrun, by decide +kernel, by decide +kernel⟩

end PocketCalculator
