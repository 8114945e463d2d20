import Mathlib.Data.List.Induction
import Mathlib.Data.List.Infix
import PocketCalculator.Proofs.Keypad.Shown

/-!
# How an expression starts

An operator that is typed into an empty expression is left out unless it is a minus, which is the
sign of the number to come. So an expression should start with no operator but a minus
(`StartsWell`).

There is one way around this. An operator takes the place of the one at the end, and in the
expression `-` that is the sign at the start. Nobody asks then whether the new operator may stand
there. All other keys keep the start as it is or put the text of a number there, so the expressions
of a session start well exactly if no other operator ever takes the place of a sign at the start
(`forall_startsWell_iff`).
-/

namespace PocketCalculator

open Binary64 (signText)

/-! ## Starting well -/

theorem Operator.symbol_injective : Function.Injective Operator.symbol := by
  intro op op' h
  rw [← Option.some_inj, ← ofSymbol?_symbol op, h, ofSymbol?_symbol]

/-- Whether an expression starts with no operator but a minus. -/
def StartsWell (expression : Text) : Prop :=
  ∀ op : Operator, expression.head? = some op.symbol → op = .subtract

variable {text : Text}

theorem startsWell_nil : StartsWell [] :=
  fun _ hop ↦ absurd hop.symm (Option.some_ne_none _)

theorem startsWell_cons {c : Char} (hc : Operator.isSymbol c = false) (rest : Text) :
    StartsWell (c :: rest) := by
  intro op hop
  rw [Option.some_inj.mp hop, Operator.isSymbol_symbol] at hc
  exact absurd hc.symm Bool.false_ne_true

theorem startsWell_symbol_iff {op : Operator} {rest : Text} :
    StartsWell (op.symbol :: rest) ↔ op = .subtract := by
  refine ⟨fun h ↦ h op rfl, fun hop op' hop' ↦ ?_⟩
  rw [← hop]
  exact (Operator.symbol_injective (Option.some_inj.mp hop')).symm

theorem StartsWell.of_prefix {part : Text} (h : StartsWell text) (hpart : part <+: text) :
    StartsWell part := by
  obtain ⟨rest, rfl⟩ := hpart
  intro op hop
  refine h op ?_
  rw [List.head?_append, hop]
  rfl

/-- What is appended matters only to an expression that is empty. -/
theorem StartsWell.append {rest : Text} (h : StartsWell text) (hrest : text = [] → StartsWell rest) :
    StartsWell (text ++ rest) := by
  by_cases htext : text = []
  · rw [htext, List.nil_append]
    exact hrest htext
  · intro op hop
    rw [List.head?_append_of_ne_nil text htext] at hop
    exact h op hop

/-- The text of a number starts with no operator but a minus, even that of an infinity. -/
theorem startsWell_toText (x : Binary64) : StartsWell x.toText := by
  have hsign : ∀ negative, StartsWell (signText negative) := by
    rintro (_ | _)
    · exact startsWell_nil
    · exact startsWell_symbol_iff.mpr rfl
  by_cases hfinite : x.isFinite = true
  · obtain ⟨negative, text, htext, heq⟩ := Binary64.exists_isPositional_toText hfinite
    obtain ⟨c, rest, rfl, hc⟩ := htext.exists_cons
    rw [heq]
    exact (hsign negative).append fun _ ↦
      startsWell_cons (Place.isSymbol_eq_false_of_isDigit hc) rest
  · cases x with
    | finite negative m => exact absurd rfl hfinite
    | infinite negative => exact (hsign negative).append fun _ ↦ startsWell_cons rfl _
    | nan => exact startsWell_cons rfl _

/-! ## One key -/

section
variable {places : ℕ} {keypad : Keypad}

/-- Whether a key puts another operator in the place of a minus that is all that has been typed. -/
def ReplacesSign (keypad : Keypad) (key : Key) : Prop :=
  ∃ op, key = .operator op ∧ op ≠ .subtract ∧ keypad.expression = ['-']

theorem StartsWell.typeOperator {expression : Text} (h : StartsWell expression) {op : Operator}
    (hop : expression = ['-'] → op = .subtract) :
    StartsWell (Keypad.typeOperator expression op) := by
  rcases Keypad.typeOperator_cases expression op with
    ⟨before, c, rfl, hsymbol, heq⟩ | ⟨-, -, heq⟩ | ⟨-, hfirst, heq⟩
  · -- the operator comes to the start if the one that it replaces stands there
    rw [heq]
    refine (h.of_prefix (List.prefix_append before [c])).append fun hbefore ↦ ?_
    obtain ⟨last, rfl⟩ := Operator.isSymbol_iff.mp hsymbol
    have hlast : last = .subtract := startsWell_symbol_iff.mp (hbefore ▸ h)
    rw [hbefore, hlast] at hop
    exact startsWell_symbol_iff.mpr (hop rfl)
  · rw [heq]
    exact startsWell_nil
  · rw [heq]
    exact h.append fun hnil ↦ startsWell_symbol_iff.mpr (hfirst hnil)

theorem StartsWell.takePercent? {expression percent : Text} (h : StartsWell expression)
    (hpercent : Keypad.takePercent? expression = some percent) : StartsWell percent := by
  obtain ⟨before, number, value, hnumber, -, rfl⟩ := Keypad.takePercent?_eq_some hpercent
  have hbefore : before <+: expression := ⟨number, append_of_splitTail? hnumber⟩
  exact (h.of_prefix hbefore).append fun _ ↦ startsWell_toText _

theorem startsWell_evaluated (places : ℕ) (keypad : Keypad) :
    StartsWell (keypad.evaluated places).expression := by
  rw [Keypad.evaluated]
  cases roundedValue? places keypad.expression with
  | none => exact startsWell_nil
  | some value => exact startsWell_toText value

/-- **One key** keeps an expression starting well unless it replaces the sign at the start. -/
theorem StartsWell.press_iff {key : Key} (h : StartsWell keypad.expression)
    (hdigit : ∀ c, key = .digit c → c.isDigit = true) :
    StartsWell (keypad.press places key).expression ↔ ¬ ReplacesSign keypad key := by
  constructor
  · rintro hpress ⟨op, rfl, hop, hexpression⟩
    have hreplaced : Keypad.typeOperator ['-'] op = [op.symbol] := rfl
    rw [Keypad.press, hexpression, hreplaced] at hpress
    exact hop (startsWell_symbol_iff.mp hpress)
  · intro hkey
    cases key with
    | clear => exact startsWell_nil
    | delete => exact h.of_prefix (List.dropLast_prefix _)
    | equals => exact startsWell_evaluated places keypad
    | operator op =>
      exact h.typeOperator fun hminus ↦ by_contra fun hop ↦ hkey ⟨op, rfl, hop, hminus⟩
    | digit c =>
      exact h.append fun _ ↦
        startsWell_cons (Place.isSymbol_eq_false_of_isDigit (hdigit c rfl)) []
    | dot =>
      rw [Keypad.press, Keypad.typeDot]
      split_ifs
      · exact h
      · exact h.append fun _ ↦ startsWell_cons rfl _
      · exact h.append fun _ ↦ startsWell_cons rfl _
    | percent =>
      rw [Keypad.press]
      cases hexpression : Keypad.takePercent? keypad.expression with
      | none => exact h
      | some expression => exact h.takePercent? hexpression

end

/-! ## Any keys -/

/-- Whether a sign at the start is replaced by another operator in a session. -/
def ReplacesSignAtStart (places : ℕ) (keys : List Key) : Prop :=
  ∃ before key after, keys = before ++ key :: after ∧
    ReplacesSign (Keypad.pressAll places {} before) key

/-- **What an expression starts with.** Whatever keys are pressed by their labels, the expression
starts with no operator but a minus after each of them exactly if no other operator is ever put in
the place of a minus that is all that has been typed. -/
theorem forall_startsWell_iff (places : ℕ) {labels : List Text} {keys : List Key}
    (hkeys : labels.map Key.ofLabel? = keys.map some) :
    (∀ pressed, pressed <+: keys → StartsWell (Keypad.pressAll places {} pressed).expression) ↔
      ¬ ReplacesSignAtStart places keys := by
  have hpress : ∀ before key after, keys = before ++ key :: after →
      StartsWell (Keypad.pressAll places {} before).expression →
      (StartsWell (Keypad.pressAll places {} (before ++ [key])).expression ↔
        ¬ ReplacesSign (Keypad.pressAll places {} before) key) := by
    rintro before key after rfl hbefore
    rw [Keypad.pressAll_append, Keypad.pressAll_cons, Keypad.pressAll_nil]
    refine hbefore.press_iff ?_
    rintro c rfl
    exact isDigit_of_digit_mem hkeys (List.mem_append_right before List.mem_cons_self)
  constructor
  · rintro h ⟨before, key, after, heq, hreplaces⟩
    have hbefore : before <+: keys := ⟨key :: after, heq.symm⟩
    have hafter : before ++ [key] <+: keys := ⟨after, by rw [heq, List.append_assoc]; rfl⟩
    exact (hpress before key after heq (h before hbefore)).mp (h _ hafter) hreplaces
  · intro h pressed hpressed
    induction pressed using List.reverseRecOn with
    | nil => exact startsWell_nil
    | append_singleton before key ih =>
      obtain ⟨after, hafter⟩ := hpressed
      rw [List.append_assoc, List.singleton_append] at hafter
      refine (hpress before key after hafter.symm (ih ⟨key :: after, hafter⟩)).mpr ?_
      exact fun hreplaces ↦ h ⟨before, key, after, hafter.symm, hreplaces⟩

/-- While `5*+2` is typed after a sign that is deleted again and a plus that is left out, the
expression always starts well. -/
theorem startsWell_sign_deleted :
    let keys : List Key := [.operator .subtract, .delete, .operator .add, .digit '5',
      .operator .multiply, .operator .add, .digit '2']
    (Keypad.pressAll 12 {} keys).expression = ['5', '+', '2'] ∧
      ∀ pressed, pressed <+: keys → StartsWell (Keypad.pressAll 12 {} pressed).expression := by
  intro keys
  have hkeys : [['-'], ['D', 'E', 'L'], ['+'], ['5'], ['*'], ['+'], ['2']].map Key.ofLabel? =
      keys.map some := by decide
  refine ⟨rfl, (forall_startsWell_iff 12 hkeys).mpr ?_⟩
  rintro ⟨before, key, after, heq, op, rfl, -, hexpression⟩
  -- the sign is all that has been typed after the first key only, and the next key deletes it
  have hfirst : ∀ part ∈ keys.inits,
      (Keypad.pressAll 12 {} part).expression = ['-'] → part.length = 1 := by decide
  have hbefore := hfirst before ((List.mem_inits before keys).mpr ⟨_, heq.symm⟩) hexpression
  obtain ⟨first, rfl⟩ := List.length_eq_one_iff.mp hbefore
  exact Key.noConfusion (List.cons.inj (List.cons.inj heq).2).1

/-- A plus takes the place of the sign that has been typed, and then the expression starts with
it. -/
theorem exists_expression_with_leading_plus :
    ∃ (labels : List Text) (keys : List Key), labels.map Key.ofLabel? = keys.map some ∧
      (Keypad.pressAll 12 {} keys).expression = ['+'] ∧
      ¬ StartsWell (Keypad.pressAll 12 {} keys).expression := by
  refine ⟨[['-'], ['+']], [.operator .subtract, .operator .add], by decide, rfl, ?_⟩
  exact fun h ↦ Operator.noConfusion (h .add rfl)

end PocketCalculator
