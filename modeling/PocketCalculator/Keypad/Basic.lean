import PocketCalculator.Keypad.Key
import PocketCalculator.Keypad.Trailing
import PocketCalculator.Calculation.Basic

/-!
# The keypad

A keypad holds two lines: the expression that is being typed and the result of the last
evaluation. Pressing a key changes them.

Typing leaves the result alone; it is cleared by deleting, by starting anew and by rewriting the
expression. After an evaluation the expression is the result, so that one may go on calculating
with it, or empty if there was none.
-/

namespace PocketCalculator

/-- The two lines of a keypad. -/
structure Keypad where
  /-- What has been typed. -/
  expression : Text := []
  /-- The last result, the error text, or nothing. -/
  result : Text := []
deriving DecidableEq

namespace Keypad

/-- What the keypad shows: the result if there is one, else the expression, else a zero. -/
def display (keypad : Keypad) : Text :=
  if keypad.result ≠ [] then keypad.result
  else if keypad.expression ≠ [] then keypad.expression
  else ['0']

def isError (keypad : Keypad) : Bool :=
  keypad.result = errorText

/-! ## Typing -/

/-- An expression with an operator typed at its end. It replaces an operator that stands there,
and an expression may start with no operator but a minus. -/
def typeOperator (expression : Text) (op : Operator) : Text :=
  match expression.getLast? with
  | none => if op = .subtract then [op.symbol] else []
  | some last =>
    if Operator.isSymbol last then expression.dropLast ++ [op.symbol]
    else expression ++ [op.symbol]

/-- The only things that typing an operator does: it replaces one, it is left out, or it is
appended. -/
theorem typeOperator_cases (expression : Text) (op : Operator) :
    (∃ before last, expression = before ++ [last] ∧ Operator.isSymbol last = true ∧
        typeOperator expression op = before ++ [op.symbol]) ∨
      (expression = [] ∧ op ≠ .subtract ∧ typeOperator expression op = []) ∨
      ((∀ last, expression.getLast? = some last → Operator.isSymbol last = false) ∧
        (expression = [] → op = .subtract) ∧
        typeOperator expression op = expression ++ [op.symbol]) := by
  rcases List.eq_nil_or_concat expression with rfl | ⟨before, last, rfl⟩
  · by_cases hop : op = .subtract
    · exact .inr (.inr ⟨fun _ hlast ↦ absurd hlast.symm (Option.some_ne_none _), fun _ ↦ hop,
        if_pos hop⟩)
    · exact .inr (.inl ⟨rfl, hop, if_neg hop⟩)
  · rw [List.concat_eq_append, typeOperator, List.getLast?_concat, List.dropLast_concat]
    by_cases hsymbol : Operator.isSymbol last = true
    · exact .inl ⟨before, last, rfl, hsymbol, if_pos hsymbol⟩
    · refine .inr (.inr ⟨fun c hc ↦ ?_, fun hnil ↦ ?_, if_neg hsymbol⟩)
      · rw [← Option.some.inj hc]
        exact Bool.not_eq_true _ ▸ hsymbol
      · exact absurd hnil (List.append_ne_nil_of_right_ne_nil before (List.cons_ne_nil _ _))

/-- Whether a point typed after an expression starts a number, which then gets a zero before the
point. -/
def startsNumber (expression : Text) : Bool :=
  match expression.getLast? with
  | none => true
  | some last => last = '(' || Operator.isSymbol last

/-- An expression with a point typed at its end, unless the number there has one. -/
def typeDot (expression : Text) : Text :=
  if '.' ∈ trailingPartialNumber expression then expression
  else if startsNumber expression then expression ++ ['0', '.']
  else expression ++ ['.']

/-- An expression with the number at its end divided by a hundred, if there is one and it can be
read. -/
def takePercent? (expression : Text) : Option Text :=
  match trailingNumber? expression with
  | none => none
  | some (before, number) =>
    (readNumber? number).map fun value ↦ before ++ (value / 100).toText

theorem takePercent?_eq_some {expression percent : Text}
    (h : takePercent? expression = some percent) :
    ∃ before number value, trailingNumber? expression = some (before, number) ∧
      readNumber? number = some value ∧ percent = before ++ (value / 100).toText := by
  unfold takePercent? at h
  split at h
  · cases h
  · next before number hnumber =>
    obtain ⟨value, hvalue, heq⟩ := Option.map_eq_some_iff.mp h
    exact ⟨before, number, value, hnumber, hvalue, heq.symm⟩

/-! ## Pressing keys -/

/-- The keypad after an evaluation. -/
def evaluated (places : Nat) (keypad : Keypad) : Keypad :=
  match roundedValue? places keypad.expression with
  | some value => ⟨value.toText, value.toText⟩
  | none => ⟨[], errorText⟩

/-- The keypad after a key is pressed. -/
def press (places : Nat) (keypad : Keypad) : Key → Keypad
  | .clear => {}
  | .delete => ⟨keypad.expression.dropLast, []⟩
  | .equals => keypad.evaluated places
  | .percent =>
    match takePercent? keypad.expression with
    | some expression => ⟨expression, []⟩
    | none => keypad
  | .dot => { keypad with expression := typeDot keypad.expression }
  | .operator op => { keypad with expression := typeOperator keypad.expression op }
  | .digit c => { keypad with expression := keypad.expression ++ [c] }

/-- The keypad after several keys are pressed in order. -/
def pressAll (places : Nat) (keypad : Keypad) (keys : List Key) : Keypad :=
  keys.foldl (press places) keypad

@[simp]
theorem pressAll_nil (places : Nat) (keypad : Keypad) : keypad.pressAll places [] = keypad := rfl

@[simp]
theorem pressAll_cons (places : Nat) (keypad : Keypad) (key : Key) (keys : List Key) :
    keypad.pressAll places (key :: keys) = (keypad.press places key).pressAll places keys := rfl

theorem pressAll_append (places : Nat) (keypad : Keypad) (keys keys' : List Key) :
    keypad.pressAll places (keys ++ keys') = (keypad.pressAll places keys).pressAll places keys' :=
  List.foldl_append

/-- What any number of keys keeps, if each key keeps it. -/
theorem pressAll_induction {P : Keypad → Prop} {places : Nat} {keypad : Keypad} {keys : List Key}
    (hstart : P keypad)
    (hpress : ∀ keypad, P keypad → ∀ key ∈ keys, P (keypad.press places key)) :
    P (keypad.pressAll places keys) := by
  induction keys generalizing keypad with
  | nil => exact hstart
  | cons key keys ih =>
    exact ih (hpress keypad hstart key (List.mem_cons_self ..)) fun keypad h key' hkey' ↦
      hpress keypad h key' (List.mem_cons_of_mem _ hkey')

end Keypad

end PocketCalculator
