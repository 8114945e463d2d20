import Mathlib.Data.List.Infix
import PocketCalculator.Proofs.Expression.Stack

/-!
# Complete sequences

What a sequence in postfix order means can be told from its depths, without a stack. The evaluation
gets to the end exactly if no part that the sequence starts with is of depth zero or less
(`keepsValue_iff`). Then the value is that of the longest part of depth one that it starts with:
what follows lies above it on the stack and never reaches down to it
(`IsComplete.postfixValue_append`).

Such a part is a number, or a complete expression: two complete expressions, which are found in only
one way, and a token that is applied to their values (`IsComplete.exists_operands`,
`IsComplete.append_inj`). So every sequence has the value of a tree, and only one, whether or not it
is well-formed.

## The decomposition

A sequence that always keeps a value is a complete one followed by a sequence that always keeps a
value of its own (`exists_complete_append`). The cut is where the depth is one for the last time.
-/

namespace PocketCalculator

/-! ## Depths along a sequence -/

/-- Whether a sequence has put at least one value on the stack after each of its tokens. -/
def KeepsValue (tokens : List Token) : Prop :=
  ∀ part, part <+: tokens → part ≠ [] → 1 ≤ depth part

/-- Whether a sequence has no token, or some token of it leaves no value. -/
def RunsDry (tokens : List Token) : Prop :=
  tokens = [] ∨ ∃ part, part <+: tokens ∧ part ≠ [] ∧ depth part ≤ 0

/-- Whether a sequence always keeps a value and in the end leaves one. -/
structure IsComplete (tokens : List Token) : Prop where
  keepsValue : KeepsValue tokens
  depth_eq : depth tokens = 1

instance (tokens : List Token) : Decidable (KeepsValue tokens) :=
  decidable_of_iff (∀ part ∈ tokens.inits, part ≠ [] → 1 ≤ depth part)
    (forall_congr' fun part ↦ by rw [List.mem_inits])

instance (tokens : List Token) : Decidable (RunsDry tokens) :=
  decidable_of_iff (tokens = [] ∨ ∃ part ∈ tokens.inits, part ≠ [] ∧ depth part ≤ 0)
    (or_congr_right (exists_congr fun part ↦ by rw [List.mem_inits]))

instance (tokens : List Token) : Decidable (IsComplete tokens) :=
  decidable_of_iff (KeepsValue tokens ∧ depth tokens = 1)
    ⟨fun h ↦ ⟨h.1, h.2⟩, fun h ↦ ⟨h.keepsValue, h.depth_eq⟩⟩

theorem not_runsDry_iff {tokens : List Token} :
    ¬ RunsDry tokens ↔ tokens ≠ [] ∧ KeepsValue tokens := by
  simp only [RunsDry, KeepsValue, not_or, not_exists, not_and, Int.not_le]
  exact Iff.rfl

theorem keepsValue_nil : KeepsValue [] :=
  fun _ hpart hne ↦ absurd (List.prefix_nil.mp hpart) hne

theorem KeepsValue.of_prefix {part tokens : List Token} (h : KeepsValue tokens)
    (hpart : part <+: tokens) : KeepsValue part :=
  fun p hp hne ↦ h p (hp.trans hpart) hne

theorem keepsValue_concat_iff {tokens : List Token} {token : Token} :
    KeepsValue (tokens ++ [token]) ↔ KeepsValue tokens ∧ 1 ≤ depth (tokens ++ [token]) := by
  constructor
  · intro h
    exact ⟨h.of_prefix (List.prefix_append _ _), h _ (List.prefix_refl _) (by simp)⟩
  · rintro ⟨h, hdepth⟩ part hpart hne
    rcases List.prefix_concat_iff.mp hpart with rfl | hpart
    · exact hdepth
    · exact h part hpart hne

theorem KeepsValue.eq_nil {part tokens : List Token} (h : KeepsValue tokens)
    (hpart : part <+: tokens) (hdepth : depth part ≤ 0) : part = [] := by
  by_contra hne
  have hone := h part hpart hne
  omega

theorem KeepsValue.eq_nil_of_depth_eq {before between after : List Token}
    (h : KeepsValue (between ++ after)) (hdepth : depth (before ++ between) = depth before) :
    between = [] := by
  rw [depth_append] at hdepth
  exact h.eq_nil (List.prefix_append between after) (by omega)

theorem KeepsValue.isComplete_singleton {token : Token} (h : KeepsValue [token]) :
    IsComplete [token] ∧ ∃ text, token = .number text := by
  have hdepth := h [token] (List.prefix_refl _) (List.cons_ne_nil _ _)
  by_cases htoken : ∃ text, token = .number text
  · obtain ⟨text, rfl⟩ := htoken
    exact ⟨⟨h, depth_number text⟩, text, rfl⟩
  · rw [depth_singleton fun text heq ↦ htoken ⟨text, heq⟩] at hdepth
    omega

/-! ## The decomposition -/

/-- A sequence that keeps a value starts with a complete one, and what follows keeps a value of its
own. By induction from the end: the last token belongs to what follows, unless it takes the complete
sequence from below it. -/
theorem exists_complete_append {tokens : List Token} (hne : tokens ≠ []) (h : KeepsValue tokens) :
    ∃ first rest, tokens = first ++ rest ∧ IsComplete first ∧ KeepsValue rest := by
  induction tokens using List.reverseRecOn with
  | nil => exact absurd rfl hne
  | append_singleton before token ih =>
    obtain ⟨hbefore, hdepth⟩ := keepsValue_concat_iff.mp h
    rcases eq_or_ne before [] with rfl | hbeforene
    · exact ⟨[token], [], rfl, h.isComplete_singleton.1, keepsValue_nil⟩
    · obtain ⟨first, rest, rfl, hfirst, hrest⟩ := ih hbeforene hbefore
      have hfirstdepth := hfirst.depth_eq
      by_cases hkeeps : 1 ≤ depth (rest ++ [token])
      · exact ⟨first, rest ++ [token], List.append_assoc _ _ _, hfirst,
          keepsValue_concat_iff.mpr ⟨hrest, hkeeps⟩⟩
      · refine ⟨first ++ rest ++ [token], [], (List.append_nil _).symm, ⟨h, ?_⟩, keepsValue_nil⟩
        rw [List.append_assoc, depth_append] at hdepth ⊢
        omega

theorem IsComplete.append_inj {left right left' right' : List Token} (hleft : IsComplete left)
    (hleft' : IsComplete left') (hright : KeepsValue right) (hright' : KeepsValue right')
    (h : left ++ right = left' ++ right') : left = left' ∧ right = right' := by
  rcases List.append_eq_append_iff.mp h with ⟨between, rfl, rfl⟩ | ⟨between, rfl, rfl⟩
  · rw [hright.eq_nil_of_depth_eq (hleft'.depth_eq.trans hleft.depth_eq.symm), List.append_nil,
      List.nil_append]
    exact ⟨rfl, rfl⟩
  · rw [hright'.eq_nil_of_depth_eq (hleft.depth_eq.trans hleft'.depth_eq.symm), List.append_nil,
      List.nil_append]
    exact ⟨rfl, rfl⟩

/-- A sequence is cut at the last place where its depth is one. -/
theorem IsComplete.prefix_of_depth_eq_one {first rest part : List Token} (hfirst : IsComplete first)
    (hrest : KeepsValue rest) (hpart : part <+: first ++ rest) (hdepth : depth part = 1) :
    part <+: first := by
  obtain ⟨after, heq⟩ := hpart
  rcases List.append_eq_append_iff.mp heq with ⟨more, rfl, -⟩ | ⟨more, rfl, rfl⟩
  · exact List.prefix_append _ _
  · rw [hrest.eq_nil_of_depth_eq (hdepth.trans hfirst.depth_eq.symm), List.append_nil]

theorem IsComplete.exists_operands {tokens : List Token} (h : IsComplete tokens) :
    (∃ text, tokens = [.number text]) ∨
      ∃ left right token, tokens = left ++ right ++ [token] ∧ IsComplete left ∧ IsComplete right ∧
        ∀ text, token ≠ .number text := by
  have hdepth := h.depth_eq
  rcases List.eq_nil_or_concat' tokens with rfl | ⟨before, token, rfl⟩
  · exact absurd hdepth (by decide)
  rcases eq_or_ne before [] with rfl | hne
  · obtain ⟨-, text, rfl⟩ := h.keepsValue.isComplete_singleton
    exact .inl ⟨text, rfl⟩
  · have hbefore := (keepsValue_concat_iff.mp h.keepsValue).1
    have hpos := hbefore before (List.prefix_refl _) hne
    rw [depth_append] at hdepth
    -- a number would need a sequence of depth zero before it
    have htoken : ∀ text, token ≠ .number text := by
      rintro text rfl
      rw [depth_number] at hdepth
      omega
    obtain ⟨left, right, rfl, hleft, hright⟩ := exists_complete_append hne hbefore
    refine .inr ⟨left, right, token, rfl, hleft, ⟨hright, ?_⟩, htoken⟩
    rw [depth_singleton htoken, depth_append, hleft.depth_eq] at hdepth
    omega

/-! ## Evaluation -/

/-- The evaluation gets to the end exactly if the sequence always keeps a value. -/
theorem keepsValue_iff {tokens : List Token} :
    KeepsValue tokens ↔ ∃ stack, runStack? [] tokens = some stack := by
  induction tokens using List.reverseRecOn with
  | nil => exact iff_of_true keepsValue_nil ⟨[], rfl⟩
  | append_singleton before token ih =>
    rw [keepsValue_concat_iff, ih, runStack?_append, depth_append]
    constructor
    · rintro ⟨⟨stack, hrun⟩, hdepth⟩
      have hlength := length_runStack? hrun
      rw [List.length_nil] at hlength
      obtain ⟨stack', hstep⟩ := exists_stepStack? (by omega : 1 ≤ stack.length + depth [token])
      refine ⟨stack', ?_⟩
      rw [hrun, Option.bind_some, runStack?_cons, hstep]
      rfl
    · rintro ⟨stack', hrun'⟩
      obtain ⟨stack, hrun, hlast⟩ := Option.bind_eq_some_iff.mp hrun'
      obtain ⟨between, hstep, hend⟩ := Option.bind_eq_some_iff.mp hlast
      have hlength := length_runStack? hrun
      have hstepped := length_stepStack? hstep
      rw [List.length_nil] at hlength
      -- a step leaves at least the value that it puts on the stack
      have hpos : 0 < between.length := by
        obtain ⟨text, -, rfl⟩ | ⟨-, a, b, below, -, rfl⟩ := stepStack?_eq_some hstep
        · exact Nat.succ_pos _
        · exact Nat.succ_pos _
      exact ⟨⟨stack, hrun⟩, by omega⟩

theorem stepStack?_of_not_number {token : Token} (htoken : ∀ text, token ≠ .number text)
    (a b : Binary64) (below : List Binary64) :
    stepStack? (b :: a :: below) token = some (token.combine a b :: below) := by
  rcases token with text | op | _ | _
  · exact absurd rfl (htoken text)
  all_goals rfl

theorem stepStack?_append {stack stack' : List Binary64} {token : Token}
    (h : stepStack? stack token = some stack') (below : List Binary64) :
    stepStack? (stack ++ below) token = some (stack' ++ below) := by
  obtain ⟨text, rfl, rfl⟩ | ⟨htoken, a, b, rest, rfl, rfl⟩ := stepStack?_eq_some h
  · rfl
  · exact stepStack?_of_not_number htoken a b (rest ++ below)

theorem runStack?_append_below {stack stack' : List Binary64} {tokens : List Token}
    (h : runStack? stack tokens = some stack') (below : List Binary64) :
    runStack? (stack ++ below) tokens = some (stack' ++ below) := by
  induction tokens generalizing stack with
  | nil =>
    cases h
    rfl
  | cons token rest ih =>
    obtain ⟨between, hstep, hrun⟩ := Option.bind_eq_some_iff.mp h
    rw [runStack?_cons, stepStack?_append hstep, Option.bind_some, ih hrun]

theorem IsComplete.runStack?_eq {tokens : List Token} (h : IsComplete tokens)
    (below : List Binary64) : runStack? below tokens = some (postfixValue tokens :: below) := by
  obtain ⟨stack, hrun⟩ := keepsValue_iff.mp h.keepsValue
  have hlength := length_runStack? hrun
  rw [h.depth_eq, List.length_nil] at hlength
  obtain ⟨value, rfl⟩ := List.length_eq_one_iff.mp (by omega : stack.length = 1)
  have hvalue : postfixValue tokens = value := by
    rw [postfixValue, postfixValueFrom_eq, hrun]
    rfl
  rw [hvalue]
  exact runStack?_append_below hrun below

/-- What follows a complete sequence and keeps a value of its own is of no consequence. -/
theorem IsComplete.postfixValue_append {first rest : List Token} (hfirst : IsComplete first)
    (hrest : KeepsValue rest) : postfixValue (first ++ rest) = postfixValue first := by
  have hkeeps : ∀ part, part <+: rest → part ≠ [] →
      2 ≤ ([postfixValue first].length : ℤ) + depth part := by
    intro part hpart hne
    have hone := hrest part hpart hne
    rw [List.length_singleton]
    omega
  obtain ⟨stack, hrun, hlast⟩ := getLast?_runStack? hkeeps
  rw [postfixValue, postfixValueFrom_eq, runStack?_append, hfirst.runStack?_eq, Option.bind_some,
    hrun, Option.bind_some, hlast]
  rfl

theorem IsComplete.postfixValue_combine {left right : List Token} (hleft : IsComplete left)
    (hright : IsComplete right) {token : Token} (htoken : ∀ text, token ≠ .number text) :
    postfixValue (left ++ right ++ [token]) =
      token.combine (postfixValue left) (postfixValue right) := by
  rw [postfixValue, postfixValueFrom_eq, runStack?_append, runStack?_append, hleft.runStack?_eq,
    Option.bind_some, hright.runStack?_eq, Option.bind_some, runStack?_cons,
    stepStack?_of_not_number htoken]
  rfl

/-- A sequence that runs dry has no value: it has no token, or its evaluation stops. -/
theorem postfixValue_of_runsDry {tokens : List Token} (h : RunsDry tokens) :
    postfixValue tokens = .nan := by
  rcases eq_or_ne tokens [] with rfl | hne
  · rfl
  · have hdry : ¬ KeepsValue tokens := fun hkeeps ↦ not_runsDry_iff.mpr ⟨hne, hkeeps⟩ h
    have hnone : runStack? [] tokens = none :=
      Option.eq_none_iff_forall_ne_some.mpr fun stack hrun ↦ hdry (keepsValue_iff.mpr ⟨stack, hrun⟩)
    rw [postfixValue, postfixValueFrom_eq, hnone]
    rfl

/-- **The value of any sequence.** A sequence that runs dry has no value. Any other has the value of
the longest part of depth one that it starts with, which is complete. A complete sequence of more
than one token is two complete ones, which can be found in one way only, and a token that is no
number and is applied to their values; and the value of a single number is what its text denotes, if
it is a numeral. -/
theorem postfixValue_eq_of_depths (tokens : List Token) :
    (RunsDry tokens → postfixValue tokens = .nan) ∧
    (¬ RunsDry tokens →
      ∃ first, IsComplete first ∧ first <+: tokens ∧
        (∀ part, part <+: tokens → depth part = 1 → part <+: first) ∧
        postfixValue tokens = postfixValue first) ∧
    (IsComplete tokens → 1 < tokens.length →
      ∃ left right token, tokens = left ++ right ++ [token] ∧ (∀ text, token ≠ .number text) ∧
        IsComplete left ∧ IsComplete right ∧
        (∀ left' right', left' ++ right' = left ++ right → IsComplete left' → IsComplete right' →
          left' = left ∧ right' = right) ∧
        postfixValue tokens = token.combine (postfixValue left) (postfixValue right)) ∧
    ∀ text, tokens = [.number text] → postfixValue tokens = (readNumber? text).getD .nan := by
  refine ⟨postfixValue_of_runsDry, fun hdry ↦ ?_, fun hcomplete hlength ↦ ?_, ?_⟩
  · obtain ⟨hne, hkeeps⟩ := not_runsDry_iff.mp hdry
    obtain ⟨first, rest, rfl, hfirst, hrest⟩ := exists_complete_append hne hkeeps
    exact ⟨first, hfirst, List.prefix_append _ _,
      fun part hpart hdepth ↦ hfirst.prefix_of_depth_eq_one hrest hpart hdepth,
      hfirst.postfixValue_append hrest⟩
  · rcases hcomplete.exists_operands with
      ⟨text, rfl⟩ | ⟨left, right, token, rfl, hleft, hright, htoken⟩
    · exact absurd hlength (lt_irrefl 1)
    · exact ⟨left, right, token, rfl, htoken, hleft, hright,
        fun left' right' heq hleft' hright' ↦
          hleft'.append_inj hleft hright'.keepsValue hright.keepsValue heq,
        hleft.postfixValue_combine hright htoken⟩
  · rintro text rfl
    rfl

/-- The sequence `2 3 4 * + 5` has the value of its longest complete part; `2 3 4 * +` has the
operands `2` and `3 4 *`; and `2 + 3` runs dry at the operator. -/
theorem postfixValue_two_three_four_multiply_add :
    let product : List Token := [.number ['3'], .number ['4'], .operator .multiply]
    let sum : List Token := .number ['2'] :: product ++ [.operator .add]
    let more : List Token := sum ++ [.number ['5']]
    let dry : List Token := [.number ['2'], .operator .add, .number ['3']]
    (RunsDry dry ∧ postfixValue dry = .nan) ∧
      (¬ RunsDry more ∧ ∃ first, IsComplete first ∧ first <+: more ∧ sum <+: first ∧
        postfixValue more = postfixValue first) ∧
      (IsComplete sum ∧ 1 < sum.length ∧
        postfixValue sum = postfixValue [.number ['2']] + postfixValue product) ∧
      postfixValue [.number ['2']] = 2 := by
  intro product sum more dry
  have hdry : RunsDry dry := by decide
  have hmore : ¬ RunsDry more := by decide
  have hsum : IsComplete sum := by decide
  obtain ⟨first, hfirst, hprefix, hlongest, hvalue⟩ := (postfixValue_eq_of_depths more).2.1 hmore
  obtain ⟨left, right, token, hsplit, -, -, -, hunique, hcombine⟩ :=
    (postfixValue_eq_of_depths sum).2.2.1 hsum (by decide)
  obtain ⟨hoperands, htoken⟩ := List.append_inj' (hsplit : _ ++ [Token.operator .add] = _) rfl
  obtain ⟨rfl, rfl⟩ := hunique [.number ['2']] product hoperands (by decide) (by decide)
  cases htoken
  exact ⟨⟨hdry, (postfixValue_eq_of_depths dry).1 hdry⟩,
    ⟨hmore, first, hfirst, hprefix, hlongest sum (List.prefix_append _ _) rfl, hvalue⟩,
    ⟨hsum, by decide, hcombine⟩,
    ((postfixValue_eq_of_depths _).2.2.2 ['2'] rfl).trans (by decide +kernel)⟩

end PocketCalculator
