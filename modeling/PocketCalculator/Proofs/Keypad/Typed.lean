import Mathlib.Data.List.Induction
import PocketCalculator.Proofs.Decimal.Positional
import PocketCalculator.Proofs.Expression.Grammar

/-!
# Typed expressions

What a keypad's keys can type is a sequence of operators and of numbers in positional notation, in
which no two operators stand side by side (`IsTyped`). Read from left to right, all that has to be
known to tell what may come next is what one is in the middle of, of which there are four cases
(`Place`). Texts that can be read to the end (`Place.after?`) are typed (`isTyped_of_after?`), and
each of them ends with a number that is being typed, or with none (`exists_openRun`).
-/

namespace PocketCalculator

/-! ## Places -/

/-- What one is in the middle of when part of an expression has been typed. -/
inductive Place
  /-- Nothing has been typed. -/
  | start
  /-- The last thing typed is an operator. -/
  | symbol
  /-- The digits of a number are being typed. -/
  | whole
  /-- The digits after the point of a number are being typed. -/
  | fraction
deriving DecidableEq

namespace Place

/-- The place after one more digit, which may be typed anywhere. -/
def afterDigit : Place → Place
  | fraction => fraction
  | _ => whole

/-- The place after one more character, if it may be typed. -/
def next? (p : Place) (c : Char) : Option Place :=
  if c.isDigit then some p.afterDigit
  else if c = '.' then if p = whole then some fraction else none
  else if Operator.isSymbol c then if p = symbol then none else some symbol
  else none

/-- The place after a text, if it may be typed. -/
def after? (p : Place) : Text → Option Place
  | [] => some p
  | c :: rest => (p.next? c).bind fun q ↦ q.after? rest

def IsBetween (p : Place) : Prop :=
  p = start ∨ p = symbol

variable {p q : Place}

theorem next?_digit {c : Char} (h : c.isDigit = true) :
    p.next? c = some p.afterDigit :=
  if_pos h

@[simp] theorem next?_dot : whole.next? '.' = some fraction := rfl

theorem not_isDigit_symbol (op : Operator) : op.symbol.isDigit = false := by
  cases op <;> rfl

theorem next?_symbol (hp : p ≠ symbol) (op : Operator) : p.next? op.symbol = some symbol := by
  have hdot : op.symbol ≠ '.' := by cases op <;> decide
  rw [next?, not_isDigit_symbol, if_neg Bool.false_ne_true, if_neg hdot,
    if_pos (Operator.isSymbol_symbol op), if_neg hp]

/-- All that can be typed at a place. -/
theorem next?_eq_some {c : Char} (h : p.next? c = some q) :
    (c.isDigit = true ∧ q = p.afterDigit) ∨
      (c = '.' ∧ p = whole ∧ q = fraction) ∨
      (∃ op : Operator, c = op.symbol) ∧ p ≠ symbol ∧ q = symbol := by
  rw [next?] at h
  split_ifs at h with hdigit hdot hwhole hsymbol hp
  · exact .inl ⟨hdigit, (Option.some_inj.mp h).symm⟩
  · exact .inr (.inl ⟨hdot, hwhole, (Option.some_inj.mp h).symm⟩)
  · exact .inr (.inr ⟨Operator.isSymbol_iff.mp hsymbol, hp, (Option.some_inj.mp h).symm⟩)

theorem isSymbol_eq_false_of_isDigit {c : Char} (h : c.isDigit = true) :
    Operator.isSymbol c = false := by
  rw [← Bool.not_eq_true, Operator.isSymbol_iff]
  rintro ⟨op, rfl⟩
  rw [not_isDigit_symbol] at h
  exact absurd h Bool.false_ne_true

theorem isSymbol_iff_of_next? {c : Char} (h : p.next? c = some q) :
    Operator.isSymbol c = true ↔ q = symbol := by
  rcases next?_eq_some h with ⟨hdigit, rfl⟩ | ⟨rfl, -, rfl⟩ | ⟨⟨op, rfl⟩, -, rfl⟩
  · rw [isSymbol_eq_false_of_isDigit hdigit]
    cases p <;> decide
  · decide
  · exact iff_of_true (Operator.isSymbol_symbol op) rfl

theorem ne_symbol_of_next? {c : Char} (h : p.next? c = some q)
    (hc : Operator.isSymbol c = true) : p ≠ symbol := by
  obtain ⟨op, rfl⟩ := Operator.isSymbol_iff.mp hc
  rcases next?_eq_some h with ⟨hdigit, -⟩ | ⟨hdot, -, -⟩ | ⟨-, hne, -⟩
  · rw [not_isDigit_symbol] at hdigit
    exact absurd hdigit Bool.false_ne_true
  · rw [hdot] at hc
    exact absurd hc (by decide)
  · exact hne

@[simp] theorem after?_nil : p.after? [] = some p := rfl

theorem after?_cons (c : Char) (rest : Text) :
    p.after? (c :: rest) = (p.next? c).bind fun q ↦ q.after? rest := rfl

theorem after?_append (text rest : Text) :
    p.after? (text ++ rest) = (p.after? text).bind fun q ↦ q.after? rest := by
  induction text generalizing p with
  | nil => rfl
  | cons c text ih =>
    rw [List.cons_append, after?_cons, after?_cons, Option.bind_assoc]
    exact congrArg _ (funext fun q ↦ ih)

theorem after?_append_eq_some {text rest : Text} {r : Place} :
    p.after? (text ++ rest) = some r ↔ ∃ q, p.after? text = some q ∧ q.after? rest = some r := by
  rw [after?_append, Option.bind_eq_some_iff]

@[simp] theorem after?_singleton (c : Char) : p.after? [c] = p.next? c := by
  rw [after?_cons]
  cases p.next? c <;> rfl

theorem after?_concat_eq_some {text : Text} {c : Char} {r : Place} :
    p.after? (text ++ [c]) = some r ↔ ∃ q, p.after? text = some q ∧ q.next? c = some r := by
  rw [after?_append_eq_some]
  simp only [after?_singleton]

/-! ## Typing numbers -/

theorem after?_digits {digits : Text} (hne : digits ≠ []) (h : ∀ c ∈ digits, c.isDigit = true) :
    p.after? digits = some p.afterDigit := by
  induction digits generalizing p with
  | nil => exact absurd rfl hne
  | cons c digits ih =>
    rw [after?_cons, next?_digit (h c List.mem_cons_self), Option.bind_some]
    by_cases hdigits : digits = []
    · rw [hdigits, after?_nil]
    · rw [ih hdigits fun d hd ↦ h d (List.mem_cons_of_mem c hd)]
      cases p <;> rfl

theorem fraction_after?_digits {digits : Text} (h : ∀ c ∈ digits, c.isDigit = true) :
    fraction.after? digits = some fraction := by
  by_cases hne : digits = []
  · rw [hne, after?_nil]
  · exact after?_digits hne h

theorem exists_after?_of_isPositional (hp : p.IsBetween) {text : Text} (h : IsPositional text) :
    ∃ q, p.after? text = some q := by
  have hwhole : p.afterDigit = whole := by rcases hp with rfl | rfl <;> rfl
  cases h with
  | whole hne h => exact ⟨_, after?_digits hne h⟩
  | pointed hne h hdigits =>
    refine ⟨fraction, after?_append_eq_some.mpr ⟨whole, ?_, ?_⟩⟩
    · rw [after?_digits hne h, hwhole]
    · rw [after?_cons, next?_dot, Option.bind_some, fraction_after?_digits hdigits]

/-- Whether a number may be typed at a place: with a minus wherever an operator may be typed, and
without one wherever no number is being typed. -/
def Takes (p : Place) : (negative : Bool) → Prop
  | true => p ≠ symbol
  | false => p.IsBetween

theorem exists_after?_of_takes {negative : Bool} (hp : p.Takes negative) {text : Text}
    (h : IsPositional text) : ∃ q, p.after? (Binary64.signText negative ++ text) = some q := by
  cases negative with
  | false => exact exists_after?_of_isPositional hp h
  | true =>
    obtain ⟨q, hq⟩ := exists_after?_of_isPositional (p := symbol) (.inr rfl) h
    refine ⟨q, after?_append_eq_some.mpr ⟨symbol, ?_, hq⟩⟩
    exact (after?_singleton _).trans (next?_symbol hp .subtract)

/-! ## The number at the end -/

/-- What has been typed, at a place, of the number that is being typed there. -/
inductive OpenRun : Place → Text → Prop
  | start : OpenRun start []
  | symbol : OpenRun symbol []
  | whole {digits : Text} (hne : digits ≠ []) (h : ∀ c ∈ digits, c.isDigit = true) :
      OpenRun whole digits
  | fraction {digits decimals : Text} (hne : digits ≠ []) (h : ∀ c ∈ digits, c.isDigit = true)
      (hdecimals : ∀ c ∈ decimals, c.isDigit = true) :
      OpenRun fraction (digits ++ '.' :: decimals)

theorem OpenRun.digit {run : Text} (h : OpenRun p run) {c : Char} (hc : c.isDigit = true) :
    OpenRun p.afterDigit (run ++ [c]) := by
  have hone : ∀ d ∈ [c], d.isDigit = true := List.forall_mem_singleton.mpr hc
  cases h with
  | start | symbol => exact .whole (List.cons_ne_nil c []) hone
  | whole hne h =>
    exact .whole (List.append_ne_nil_of_left_ne_nil hne [c]) (List.forall_mem_append.mpr ⟨h, hone⟩)
  | fraction hne h hdecimals =>
    rw [List.append_assoc, List.cons_append]
    exact .fraction hne h (List.forall_mem_append.mpr ⟨hdecimals, hone⟩)

theorem OpenRun.isPositional {run : Text} (h : OpenRun p run) (hne : run ≠ []) :
    IsPositional run := by
  cases h with
  | start | symbol => exact absurd rfl hne
  | whole hne h => exact .whole hne h
  | fraction hdigits h hdecimals => exact .pointed hdigits h hdecimals

/-- **The number at the end.** What has been typed is a part after which no number is being typed,
and then the number that is being typed. -/
theorem exists_openRun {text : Text} (hp : p.IsBetween) (h : p.after? text = some q) :
    ∃ (before run : Text) (r : Place), text = before ++ run ∧ p.after? before = some r ∧
      r.IsBetween ∧ OpenRun q run := by
  induction text using List.reverseRecOn generalizing q with
  | nil =>
    obtain rfl := Option.some_inj.mp h
    refine ⟨[], [], p, rfl, rfl, hp, ?_⟩
    rcases hp with rfl | rfl
    · exact .start
    · exact .symbol
  | append_singleton text c ih =>
    obtain ⟨r, hr, hc⟩ := after?_concat_eq_some.mp h
    obtain ⟨before, run, s, rfl, hbefore, hs, hrun⟩ := ih hr
    rcases next?_eq_some hc with ⟨hdigit, rfl⟩ | ⟨rfl, rfl, rfl⟩ | ⟨-, -, rfl⟩
    · exact ⟨before, run ++ [c], s, List.append_assoc _ _ _, hbefore, hs, hrun.digit hdigit⟩
    · cases hrun with
      | whole hne hdigits =>
        exact ⟨before, run ++ ['.'], s, List.append_assoc _ _ _, hbefore, hs,
          .fraction hne hdigits fun _ hd ↦ absurd hd List.not_mem_nil⟩
    · exact ⟨before ++ run ++ [c], [], symbol, (List.append_nil _).symm, h, .inr rfl, .symbol⟩

theorem eq_nil_or_symbol {text : Text} (h : p.after? text = some q) (hq : q.IsBetween) :
    text = [] ∨ ∃ (before : Text) (op : Operator) (r : Place), text = before ++ [op.symbol] ∧
      p.after? before = some r ∧ r ≠ symbol := by
  rcases List.eq_nil_or_concat' text with rfl | ⟨before, c, rfl⟩
  · exact .inl rfl
  · obtain ⟨r, hr, hc⟩ := after?_concat_eq_some.mp h
    rcases next?_eq_some hc with ⟨-, rfl⟩ | ⟨-, -, rfl⟩ | ⟨⟨op, rfl⟩, hne, -⟩
    · cases r <;> rcases hq with hq | hq <;> cases hq
    · rcases hq with hq | hq <;> cases hq
    · exact .inr ⟨before, op, r, rfl, hr, hne⟩

/-- A text of digits and points that may be typed where no number is being typed is a number. -/
theorem isPositional_of_after? {text : Text} (hp : p.IsBetween) (h : p.after? text = some q)
    (hne : text ≠ []) (hnumeral : ∀ c ∈ text, isNumeralChar c = true) : IsPositional text := by
  obtain ⟨before, run, r, rfl, hbefore, hr, hrun⟩ := exists_openRun hp h
  rcases eq_nil_or_symbol hbefore hr with rfl | ⟨before, op, -, rfl, -, -⟩
  · exact hrun.isPositional hne
  · have hop := hnumeral op.symbol (by simp)
    rw [isNumeralChar_symbol] at hop
    exact absurd hop Bool.false_ne_true

end Place

/-! ## Typed expressions -/

/-- Whether a part of a text is a run of digits and points that cannot be made longer. -/
structure IsRun (before run after : Text) : Prop where
  /-- It is not empty. -/
  ne_nil : run ≠ []
  /-- It consists of digits and points. -/
  isNumeralChar_of_mem : ∀ c ∈ run, isNumeralChar c = true
  /-- There is none in front of it. -/
  before_last : ∀ c, before.getLast? = some c → isNumeralChar c = false
  /-- There is none after it. -/
  after_head : ∀ c, after.head? = some c → isNumeralChar c = false

/-- Whether a text consists of operators, no two of them side by side, and of runs of digits and
points that start with a digit and have at most one point. -/
structure IsTyped (text : Text) : Prop where
  /-- There are no other characters. -/
  isNumeralChar_or_isSymbol : ∀ c ∈ text, isNumeralChar c = true ∨ Operator.isSymbol c = true
  /-- There is no operator right after another. -/
  not_isSymbol_of_isSymbol : ∀ (before after : Text) (c d : Char),
    text = before ++ c :: d :: after → Operator.isSymbol c = true → Operator.isSymbol d = false
  /-- A run starts with a digit. -/
  run_head : ∀ before run after : Text, text = before ++ (run ++ after) → IsRun before run after →
    ∃ c rest, run = c :: rest ∧ c.isDigit = true
  /-- A run has at most one point. -/
  run_count : ∀ before run after : Text, text = before ++ (run ++ after) → IsRun before run after →
    run.count '.' ≤ 1

theorem IsPositional.count_le_one {text : Text} (h : IsPositional text) : text.count '.' ≤ 1 := by
  have hzero : ∀ {digits : Text}, (∀ c ∈ digits, c.isDigit = true) → digits.count '.' = 0 := by
    intro digits hdigits
    exact List.count_eq_zero.mpr fun hmem ↦ absurd (hdigits '.' hmem) (by decide)
  cases h with
  | whole _ hdigits => exact (hzero hdigits).trans_le (Nat.zero_le 1)
  | pointed _ hdigits hfraction =>
    rw [List.count_append, List.count_cons_self, hzero hdigits, hzero hfraction]

namespace Place

variable {p q : Place}

theorem isBetween_of_getLast? {text : Text} (hp : p.IsBetween) (h : p.after? text = some q)
    (hlast : ∀ c, text.getLast? = some c → isNumeralChar c = false) : q.IsBetween := by
  rcases List.eq_nil_or_concat' text with rfl | ⟨before, c, rfl⟩
  · rwa [← Option.some_inj.mp h]
  · obtain ⟨r, hr, hc⟩ := after?_concat_eq_some.mp h
    have hnumeral := hlast c List.getLast?_concat
    rcases next?_eq_some hc with ⟨hdigit, -⟩ | ⟨rfl, -, -⟩ | ⟨-, -, hplace⟩
    · rw [isNumeralChar_of_isDigit hdigit] at hnumeral
      exact absurd hnumeral.symm Bool.false_ne_true
    · exact absurd hnumeral (by decide)
    · exact .inr hplace

/-- A run in what can be typed from left to right is a number. -/
theorem isPositional_of_isRun {before run after : Text} (hrun : IsRun before run after)
    (h : start.after? (before ++ (run ++ after)) = some q) : IsPositional run := by
  obtain ⟨r, hbefore, hrest⟩ := after?_append_eq_some.mp h
  obtain ⟨s, hs, -⟩ := after?_append_eq_some.mp hrest
  exact isPositional_of_after? (isBetween_of_getLast? (.inl rfl) hbefore hrun.before_last) hs
    hrun.ne_nil hrun.isNumeralChar_of_mem

theorem isTyped_of_after? {text : Text} (h : start.after? text = some q) : IsTyped text where
  isNumeralChar_or_isSymbol := by
    intro c hc
    obtain ⟨before, after, rfl⟩ := List.append_of_mem hc
    obtain ⟨r, -, hrest⟩ := after?_append_eq_some.mp h
    obtain ⟨s, hs, -⟩ := Option.bind_eq_some_iff.mp hrest
    rcases next?_eq_some hs with ⟨hdigit, -⟩ | ⟨rfl, -, -⟩ | ⟨hsymbol, -, -⟩
    · exact .inl (isNumeralChar_of_isDigit hdigit)
    · exact .inl rfl
    · exact .inr (Operator.isSymbol_iff.mpr hsymbol)
  not_isSymbol_of_isSymbol := by
    rintro before after c d rfl hc
    obtain ⟨r, -, hrest⟩ := after?_append_eq_some.mp h
    obtain ⟨s, hs, hrest⟩ := Option.bind_eq_some_iff.mp hrest
    obtain ⟨t, ht, -⟩ := Option.bind_eq_some_iff.mp hrest
    rw [← Bool.not_eq_true]
    intro hd
    exact ne_symbol_of_next? ht hd ((isSymbol_iff_of_next? hs).mp hc)
  run_head := by
    rintro before run after rfl hrun
    exact (isPositional_of_isRun hrun h).exists_cons
  run_count := by
    rintro before run after rfl hrun
    exact (isPositional_of_isRun hrun h).count_le_one

end Place

end PocketCalculator
