import PocketCalculator.Expression.Value

/-!
# The stack of values

The evaluation of a postfix sequence as a machine: a step takes the stack before a token to the
stack after it, and a run is a sequence of steps. Evaluating is running and reading the bottom of
the stack (`postfixValueFrom_eq`).

How high the stack is does not depend on the values. A number makes it one higher and any other
token one lower, so the height after a run is the depth of the sequence (`length_runStack?`), and
what a later token finds on the stack can be told from depths alone:

* as long as the stack keeps two values, its bottom stays what it was (`getLast?_runStack?`);
* what is no number stays on the stack, and from the bottom it never leaves
  (`nan_mem_runStack?`, `getLast?_eq_nan_runStack?`).
-/

namespace PocketCalculator

/-! ## Steps and runs -/

/-- The stack after a token, if the token finds the values it takes. -/
def stepStack? (stack : List Binary64) (token : Token) : Option (List Binary64) :=
  match token, stack with
  | .number text, _ => some (numberValue text :: stack)
  | token, b :: a :: below => some (token.combine a b :: below)
  | _, _ => none

/-- The stack after a sequence of tokens, if each finds the values it takes. -/
def runStack? (stack : List Binary64) : List Token → Option (List Binary64)
  | [] => some stack
  | token :: rest => (stepStack? stack token).bind (runStack? · rest)

theorem runStack?_cons (stack : List Binary64) (token : Token) (rest : List Token) :
    runStack? stack (token :: rest) = (stepStack? stack token).bind (runStack? · rest) := rfl

theorem runStack?_append (stack : List Binary64) (before after : List Token) :
    runStack? stack (before ++ after) = (runStack? stack before).bind (runStack? · after) := by
  induction before generalizing stack with
  | nil => rfl
  | cons token rest ih =>
    rw [List.cons_append, runStack?_cons, runStack?_cons, Option.bind_assoc]
    exact congrArg _ (funext fun stack' ↦ ih stack')

/-- The only two things a step does: it puts a value on the stack, or it replaces the two on top
by one. -/
theorem stepStack?_eq_some {stack stack' : List Binary64} {token : Token}
    (h : stepStack? stack token = some stack') :
    (∃ text, token = .number text ∧ stack' = numberValue text :: stack) ∨
      (∀ text, token ≠ .number text) ∧
        ∃ a b below, stack = b :: a :: below ∧ stack' = token.combine a b :: below := by
  cases token with
  | number text => exact .inl ⟨text, rfl, (Option.some.inj h).symm⟩
  | operator _ | openParen | closeParen =>
    match stack, h with
    | b :: a :: below, h =>
      exact .inr ⟨fun _ h ↦ Token.noConfusion h, a, b, below, rfl, (Option.some.inj h).symm⟩

theorem stepStack?_eq_none {stack : List Binary64} {token : Token}
    (h : stepStack? stack token = none) :
    (∀ text, token ≠ .number text) ∧ stack.length < 2 := by
  cases token with
  | number text => cases h
  | operator _ | openParen | closeParen =>
    match stack, h with
    | [], _ => exact ⟨fun _ h ↦ Token.noConfusion h, Nat.two_pos⟩
    | [_], _ => exact ⟨fun _ h ↦ Token.noConfusion h, Nat.one_lt_two⟩

/-- Evaluating is running and reading the bottom of the stack. -/
theorem postfixValueFrom_eq (stack : List Binary64) (tokens : List Token) :
    postfixValueFrom stack tokens = ((runStack? stack tokens).bind List.getLast?).getD .nan := by
  induction tokens generalizing stack with
  | nil => rfl
  | cons token rest ih =>
    rw [runStack?_cons]
    cases hstep : stepStack? stack token with
    | none =>
      obtain ⟨htoken, hstack⟩ := stepStack?_eq_none hstep
      exact postfixValueFrom_eq_nan hstack htoken rest
    | some stack' =>
      rw [Option.bind_some, ← ih]
      obtain ⟨text, rfl, rfl⟩ | ⟨htoken, a, b, below, rfl, rfl⟩ := stepStack?_eq_some hstep
      · rfl
      · cases token with
        | number text => exact absurd rfl (htoken text)
        | operator _ | openParen | closeParen => rfl

/-! ## Depth -/

/-- Whether a token puts a value on the stack without taking any. -/
def Token.isNumber : Token → Bool
  | number _ => true
  | _ => false

/-- How much higher a sequence makes the stack: by one for each number, less one for each other
token. -/
def depth (tokens : List Token) : Int :=
  tokens.countP (·.isNumber) - tokens.countP (!·.isNumber)

@[simp] theorem depth_nil : depth [] = 0 := rfl

theorem depth_append (before after : List Token) :
    depth (before ++ after) = depth before + depth after := by
  simp only [depth, List.countP_append]
  omega

theorem depth_cons (token : Token) (rest : List Token) :
    depth (token :: rest) = depth [token] + depth rest :=
  depth_append [token] rest

theorem depth_number (text : Text) : depth [.number text] = 1 := rfl

theorem depth_singleton {token : Token} (h : ∀ text, token ≠ .number text) :
    depth [token] = -1 := by
  cases token with
  | number text => exact absurd rfl (h text)
  | operator _ | openParen | closeParen => rfl

theorem length_stepStack? {stack stack' : List Binary64} {token : Token}
    (h : stepStack? stack token = some stack') :
    (stack'.length : Int) = stack.length + depth [token] := by
  obtain ⟨text, rfl, rfl⟩ | ⟨htoken, a, b, below, rfl, rfl⟩ := stepStack?_eq_some h
  · rw [depth_number, List.length_cons]
    omega
  · rw [depth_singleton htoken, List.length_cons, List.length_cons, List.length_cons]
    omega

theorem length_runStack? {stack stack' : List Binary64} {tokens : List Token}
    (h : runStack? stack tokens = some stack') :
    (stack'.length : Int) = stack.length + depth tokens := by
  induction tokens generalizing stack with
  | nil =>
    cases h
    rw [depth_nil, Int.add_zero]
  | cons token rest ih =>
    obtain ⟨between, hstep, hrun⟩ := Option.bind_eq_some_iff.mp h
    rw [ih hrun, length_stepStack? hstep, depth_cons token rest]
    omega

theorem exists_stepStack? {stack : List Binary64} {token : Token}
    (h : 1 ≤ stack.length + depth [token]) : ∃ stack', stepStack? stack token = some stack' := by
  refine Option.ne_none_iff_exists'.mp fun hnone ↦ ?_
  obtain ⟨htoken, hstack⟩ := stepStack?_eq_none hnone
  rw [depth_singleton htoken] at h
  omega

/-! ## The bottom of the stack -/

theorem getLast?_stepStack? {stack stack' : List Binary64} {token : Token}
    (h : stepStack? stack token = some stack') (hlength : 2 ≤ stack'.length) :
    stack'.getLast? = stack.getLast? := by
  obtain ⟨text, rfl, rfl⟩ | ⟨-, a, b, below, rfl, rfl⟩ := stepStack?_eq_some h
  · cases stack with
    | nil => exact absurd hlength (Nat.not_le_of_lt Nat.one_lt_two)
    | cons a below => rfl
  · cases below with
    | nil => exact absurd hlength (Nat.not_le_of_lt Nat.one_lt_two)
    | cons c below => rfl

/-- A run that always keeps two values leaves the bottom as it was. -/
theorem getLast?_runStack? {tokens : List Token} :
    ∀ {stack : List Binary64},
      (∀ part, part <+: tokens → part ≠ [] → 2 ≤ stack.length + depth part) →
      ∃ stack', runStack? stack tokens = some stack' ∧ stack'.getLast? = stack.getLast? := by
  induction tokens with
  | nil => exact fun _ ↦ ⟨_, rfl, rfl⟩
  | cons token rest ih =>
    intro stack hdepth
    have htoken := hdepth [token] ⟨rest, rfl⟩ (List.cons_ne_nil _ _)
    obtain ⟨between, hstep⟩ := exists_stepStack? (by omega : 1 ≤ stack.length + depth [token])
    have hlength := length_stepStack? hstep
    have hdepth' : ∀ part, part <+: rest → part ≠ [] → 2 ≤ between.length + depth part := by
      intro part hpart hne
      have hmore := hdepth (token :: part) (List.cons_prefix_cons.mpr ⟨rfl, hpart⟩)
        (List.cons_ne_nil _ _)
      rw [depth_cons] at hmore
      omega
    obtain ⟨stack', hrun, hlast⟩ := ih hdepth'
    refine ⟨stack', ?_, hlast.trans (getLast?_stepStack? hstep (by omega))⟩
    rw [runStack?_cons, hstep, Option.bind_some, hrun]

/-! ## What is no number -/

theorem Token.combine_nan_left (token : Token) (b : Binary64) : token.combine .nan b = .nan := by
  cases token with
  | operator op => exact op.apply_nan_left b
  | number _ | openParen | closeParen => rfl

theorem Token.combine_nan_right (token : Token) (a : Binary64) : token.combine a .nan = .nan := by
  cases token with
  | operator op => exact op.apply_nan_right a
  | number _ | openParen | closeParen => rfl

/-- What is no number stays on the stack: whatever takes it puts one back. -/
theorem nan_mem_stepStack? {stack stack' : List Binary64} {token : Token}
    (h : stepStack? stack token = some stack') (hnan : .nan ∈ stack) : .nan ∈ stack' := by
  obtain ⟨text, rfl, rfl⟩ | ⟨-, a, b, below, rfl, rfl⟩ := stepStack?_eq_some h
  · exact List.mem_cons_of_mem _ hnan
  · simp only [List.mem_cons] at hnan ⊢
    rcases hnan with hb | ha | hbelow
    · rw [← hb, token.combine_nan_right]
      exact .inl rfl
    · rw [← ha, token.combine_nan_left]
      exact .inl rfl
    · exact .inr hbelow

theorem nan_mem_runStack? {stack stack' : List Binary64} {tokens : List Token}
    (h : runStack? stack tokens = some stack') (hnan : .nan ∈ stack) : .nan ∈ stack' := by
  induction tokens generalizing stack with
  | nil =>
    cases h
    exact hnan
  | cons token rest ih =>
    obtain ⟨between, hstep, hrun⟩ := Option.bind_eq_some_iff.mp h
    exact ih hrun (nan_mem_stepStack? hstep hnan)

theorem getLast?_eq_nan_stepStack? {stack stack' : List Binary64} {token : Token}
    (h : stepStack? stack token = some stack') (hnan : stack.getLast? = some .nan) :
    stack'.getLast? = some .nan := by
  obtain ⟨text, rfl, rfl⟩ | ⟨-, a, b, below, rfl, rfl⟩ := stepStack?_eq_some h
  · rw [List.getLast?_cons, hnan]
    rfl
  · cases below with
    | nil =>
      have ha : a = .nan := Option.some.inj hnan
      rw [ha, token.combine_nan_left]
      rfl
    | cons c below => exact hnan

theorem getLast?_eq_nan_runStack? {stack stack' : List Binary64} {tokens : List Token}
    (h : runStack? stack tokens = some stack') (hnan : stack.getLast? = some .nan) :
    stack'.getLast? = some .nan := by
  induction tokens generalizing stack with
  | nil =>
    cases h
    exact hnan
  | cons token rest ih =>
    obtain ⟨between, hstep, hrun⟩ := Option.bind_eq_some_iff.mp h
    exact ih hrun (getLast?_eq_nan_stepStack? hstep hnan)

end PocketCalculator
