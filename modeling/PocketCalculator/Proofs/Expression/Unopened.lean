import PocketCalculator.Calculation.Basic
import PocketCalculator.Proofs.Expression.Enclosed
import PocketCalculator.Proofs.Expression.Lossless

/-!
# Unopened parentheses

A closing parenthesis closes the innermost one that is open. One that finds none open acts as if its
opening parenthesis stood at the very start: with as many opening parentheses in front as there are
closing ones without a partner, the postfix order is the same, and so is the value of the expression.

How many there are is also the least number of opening parentheses that, put in front, leave none
without a partner (`unopened_le_iff`). Together with the number of those that are never closed it
says whether the parentheses are balanced (`isBalanced_iff`).

## The invariant

The two runs differ in the opening parentheses at the bottom of one of the stacks: there are as many
as closing ones without a partner are still to come. No operator releases a parenthesis, so a token
does the same above them. And where one run finds no parenthesis to close and releases all that
waits, the other releases all that waits above the first of those at the bottom, which goes away
(`released_append_replicate`).
-/

namespace PocketCalculator

/-! ## Counting -/

/-- Whether a token is a closing parenthesis that closes nothing when `opened` are open. -/
def closesNothing (opened : ℕ) (token : Token) : Bool :=
  token = .closeParen && opened = 0

/-- How many closing parentheses close nothing when `opened` are open before. -/
def unopenedFrom (opened : ℕ) : List Token → ℕ
  | [] => 0
  | token :: rest =>
    (closesNothing opened token).toNat + unopenedFrom (openedAfter opened token) rest

/-- How many closing parentheses have no opening one to close. -/
def unopened (tokens : List Token) : ℕ :=
  unopenedFrom 0 tokens

theorem closesNothing_iff {opened : ℕ} {token : Token} :
    closesNothing opened token = true ↔ token = .closeParen ∧ opened = 0 := by
  rw [closesNothing, Bool.and_eq_true, decide_eq_true_eq, decide_eq_true_eq]

theorem unopenedFrom_cons (opened : ℕ) (token : Token) (rest : List Token) :
    unopenedFrom opened (token :: rest) =
      (closesNothing opened token).toNat + unopenedFrom (openedAfter opened token) rest := rfl

@[simp]
theorem unopenedFrom_number (opened : ℕ) (text : Text) (rest : List Token) :
    unopenedFrom opened (.number text :: rest) = unopenedFrom opened rest := by
  rw [unopenedFrom_cons]
  exact Nat.zero_add _

@[simp]
theorem unopenedFrom_operator (opened : ℕ) (op : Operator) (rest : List Token) :
    unopenedFrom opened (.operator op :: rest) = unopenedFrom opened rest := by
  rw [unopenedFrom_cons]
  exact Nat.zero_add _

theorem unopenedFrom_append (opened : ℕ) (before after : List Token) :
    unopenedFrom opened (before ++ after) =
      unopenedFrom opened before + unopenedFrom (before.foldl openedAfter opened) after := by
  induction before generalizing opened with
  | nil => exact (Nat.zero_add _).symm
  | cons token rest ih =>
    rw [List.cons_append, unopenedFrom_cons, ih, unopenedFrom_cons, List.foldl_cons, Nat.add_assoc]

theorem count_cons_eq_add (t token : Token) (rest : List Token) :
    (token :: rest).count t = [token].count t + rest.count t := by
  rw [← List.count_append, List.singleton_append]

theorem openedAfter_add_count (opened : ℕ) (token : Token) :
    openedAfter opened token + [token].count .closeParen =
      opened + [token].count .openParen + (closesNothing opened token).toNat := by
  rcases token with text | op | _ | _
  · rfl
  · rfl
  · rfl
  · rcases Nat.eq_zero_or_pos opened with rfl | hopened
    · rfl
    · rw [closesNothing, openedAfter, decide_eq_false hopened.ne', Bool.and_false]
      exact Nat.sub_add_cancel hopened

theorem foldl_openedAfter_add_count (opened : ℕ) (tokens : List Token) :
    tokens.foldl openedAfter opened + tokens.count .closeParen =
      opened + tokens.count .openParen + unopenedFrom opened tokens := by
  induction tokens generalizing opened with
  | nil => rfl
  | cons token rest ih =>
    have htoken := openedAfter_add_count opened token
    have hrest := ih (openedAfter opened token)
    rw [List.foldl_cons, unopenedFrom_cons, count_cons_eq_add, count_cons_eq_add .openParen]
    omega

theorem unclosed_add_count (tokens : List Token) :
    unclosed tokens + tokens.count .closeParen = tokens.count .openParen + unopened tokens := by
  have h := foldl_openedAfter_add_count 0 tokens
  rwa [Nat.zero_add] at h

/-- No part of the tokens closes more parentheses than are open, have been opened and are never
opened. The number of the last is the least for which this holds. -/
theorem unopenedFrom_le_iff {opened k : ℕ} {tokens : List Token} :
    unopenedFrom opened tokens ≤ k ↔
      ∀ part, part <+: tokens →
        part.count .closeParen ≤ opened + part.count .openParen + k := by
  constructor
  · rintro hle part ⟨rest, rfl⟩
    have hpart := foldl_openedAfter_add_count opened part
    rw [unopenedFrom_append] at hle
    omega
  · intro hparts
    induction tokens generalizing opened k with
    | nil => exact Nat.zero_le k
    | cons token rest ih =>
      have htoken := openedAfter_add_count opened token
      have hone := hparts [token] ⟨rest, rfl⟩
      have hnothing : (closesNothing opened token).toNat ≤ k := by
        cases h : closesNothing opened token with
        | false => exact Nat.zero_le k
        | true =>
          obtain ⟨rfl, rfl⟩ := closesNothing_iff.mp h
          simpa using hone
      have hrest : unopenedFrom (openedAfter opened token) rest ≤
          k - (closesNothing opened token).toNat := by
        refine ih fun part hpart ↦ ?_
        have hmore := hparts (token :: part) (List.cons_prefix_cons.mpr ⟨rfl, hpart⟩)
        rw [count_cons_eq_add, count_cons_eq_add .openParen] at hmore
        omega
      rw [unopenedFrom_cons]
      omega

theorem unopened_le_iff {k : ℕ} {tokens : List Token} :
    unopened tokens ≤ k ↔
      ∀ part, part <+: tokens → part.count .closeParen ≤ part.count .openParen + k := by
  rw [unopened, unopenedFrom_le_iff]
  simp only [Nat.zero_add]

theorem isBalanced_iff {tokens : List Token} :
    IsBalanced tokens ↔ unopened tokens = 0 ∧ unclosed tokens = 0 := by
  have hcount := unclosed_add_count tokens
  constructor
  · intro h
    have hunopened : unopened tokens = 0 := Nat.le_zero.mp (unopened_le_iff.mpr h.count_le)
    have heq := h.count_eq
    omega
  · rintro ⟨hunopened, hunclosed⟩
    exact ⟨unopened_le_iff.mp hunopened.le, by omega⟩

/-- In `1)+(2))(` two closing parentheses find none open, and the last opening one stays open. -/
example :
    let tokens : List Token := [.number ['1'], .closeParen, .operator .add, .openParen,
      .number ['2'], .closeParen, .closeParen, .openParen]
    unopened tokens = 2 ∧ unclosed tokens = 1 := by
  decide

/-! ## Parentheses in front -/

/-- Above opening parentheses, a token does what it would do if they were not there, except that a
closing one with nothing else to close takes one of them away. -/
theorem released_append_replicate (waiting : List Token) (token : Token) (n : ℕ) :
    released (waiting ++ List.replicate
        ((closesNothing (waiting.count .openParen) token).toNat + n) .openParen) token =
      released waiting token ∧
    stillWaiting (waiting ++ List.replicate
        ((closesNothing (waiting.count .openParen) token).toNat + n) .openParen) token =
      stillWaiting waiting token ++ List.replicate n .openParen := by
  cases h : closesNothing (waiting.count .openParen) token with
  | true =>
    obtain ⟨rfl, hcount⟩ := closesNothing_iff.mp h
    have hopen : .openParen ∉ waiting := List.count_eq_zero.mp hcount
    have hall : ∀ t ∈ waiting, decide (t ≠ .openParen) = true := fun t ht ↦
      decide_eq_true fun heq ↦ hopen (heq ▸ ht)
    have htake : released waiting .closeParen = waiting := List.takeWhile_eq_self_iff.mpr hall
    have hdrop : stillWaiting waiting .closeParen = [] := by
      rw [stillWaiting, List.dropWhile_eq_nil_iff.mpr hall, List.tail_nil]
    rw [Bool.toNat_true, Nat.add_comm, List.replicate_succ, released_closeParen hopen,
      stillWaiting_closeParen hopen, htake, hdrop]
    exact ⟨rfl, rfl⟩
  | false =>
    rw [Bool.toNat_false, Nat.zero_add]
    cases n with
    | zero =>
      rw [List.replicate_zero, List.append_nil, List.append_nil]
      exact ⟨rfl, rfl⟩
    | succ n =>
      rw [List.replicate_succ]
      refine released_append_openParen _ fun htoken ↦ ?_
      by_contra hopen
      rw [closesNothing_iff.mpr ⟨htoken, List.count_eq_zero.mpr hopen⟩] at h
      exact Bool.noConfusion h

/-- **The invariant.** Opening parentheses at the bottom of the stack change nothing, if there are
as many as closing ones that find nothing else to close. -/
theorem orderFrom_append_replicate (waiting tokens : List Token) :
    orderFrom
        (waiting ++ List.replicate (unopenedFrom (waiting.count .openParen) tokens) .openParen)
        tokens =
      orderFrom waiting tokens := by
  induction tokens generalizing waiting with
  | nil => exact List.append_nil waiting
  | cons token rest ih =>
    obtain ⟨hreleased, hwaiting⟩ := released_append_replicate waiting token
      (unopenedFrom (openedAfter (waiting.count .openParen) token) rest)
    rw [unopenedFrom_cons, orderFrom_cons, hreleased, hwaiting, ← count_openParen_stillWaiting, ih,
      orderFrom_cons]

theorem orderFrom_replicate_append (n : ℕ) (waiting tokens : List Token) :
    orderFrom waiting (List.replicate n .openParen ++ tokens) =
      orderFrom (List.replicate n .openParen ++ waiting) tokens := by
  induction n generalizing waiting with
  | zero => rfl
  | succ n ih =>
    rw [List.replicate_succ, List.cons_append, orderFrom_openParen, ih, ← List.replicate_succ,
      List.replicate_succ', List.append_assoc, List.singleton_append]

theorem postfixOrder_replicate_append (tokens : List Token) :
    postfixOrder (List.replicate (unopened tokens) .openParen ++ tokens) = postfixOrder tokens := by
  rw [postfixOrder, orderFrom_replicate_append, List.append_nil]
  exact orderFrom_append_replicate [] tokens

theorem tokensValue_replicate_append (tokens : List Token) :
    tokensValue (List.replicate (unopened tokens) .openParen ++ tokens) = tokensValue tokens := by
  rcases tokens with _ | ⟨token, rest⟩
  · rfl
  · have hempty : ∀ opening : List Token, (opening ++ token :: rest).isEmpty = false :=
      fun opening ↦ List.isEmpty_eq_false_iff.mpr (List.append_ne_nil_of_right_ne_nil _ (by simp))
    rw [tokensValue, hempty, postfixOrder_replicate_append, tokensValue, List.isEmpty_cons]

/-! ## Parentheses typed in front -/

theorem scan_replicate_append (n : ℕ) (text : Text) :
    scan (List.replicate n '(' ++ text) = List.replicate n .openParen ++ scan text := by
  have hopen : ∀ rest, scanFrom true ('(' :: rest) = .openParen :: scanFrom true rest := fun rest ↦
    scanFrom_char (by decide) rfl fun h ↦ absurd h (by decide)
  induction n with
  | zero => rfl
  | succ n ih =>
    rw [List.replicate_succ, List.cons_append, scan, List.filter_cons_of_pos (by decide), hopen,
      ← scan, ih, List.replicate_succ, List.cons_append]

theorem ofChar?_of_isNumeralChar {c : Char} (h : isNumeralChar c = true) :
    Token.ofChar? c = none := by
  refine Option.eq_none_iff_forall_ne_some.mpr fun token htoken ↦ ?_
  have htext := Token.text_of_ofChar? htoken
  rcases token with text | op | _ | _
  · exact Token.ne_number_of_ofChar? htoken text rfl
  all_goals
    cases htext
  · rw [isNumeralChar_symbol op] at h
    exact Bool.noConfusion h
  · exact absurd h (by decide)
  · exact absurd h (by decide)

theorem ofChar?_of_isBlank {c : Char} (h : isBlank c = true) : Token.ofChar? c = none := by
  have hmeaningless := isMeaningful_of_isBlank h
  rw [isMeaningful, Bool.or_eq_false_iff, Option.isSome_eq_false_iff] at hmeaningless
  exact Option.isNone_iff_eq_none.mp hmeaningless.2

theorem filterMap_dropWhile_isNumeralChar (text : Text) :
    (text.dropWhile isNumeralChar).filterMap Token.ofChar? = text.filterMap Token.ofChar? := by
  have hrun : (text.takeWhile isNumeralChar).filterMap Token.ofChar? = [] :=
    List.filterMap_eq_nil_iff.mpr fun c hc ↦ ofChar?_of_isNumeralChar (List.mem_takeWhile_imp hc)
  have hsplit := congrArg (List.filterMap Token.ofChar?)
    (List.takeWhile_append_dropWhile (p := isNumeralChar) (l := text))
  rwa [List.filterMap_append, hrun, List.nil_append] at hsplit

theorem unopenedFrom_scanFrom (opened : ℕ) (operandNext : Bool) (text : Text) :
    unopenedFrom opened (scanFrom operandNext text) =
      unopenedFrom opened (text.filterMap Token.ofChar?) := by
  fun_induction scanFrom operandNext text generalizing opened with
  | case1 => rfl
  | case2 operandNext c rest digits afterDigits hc ih =>
    rw [unopenedFrom_number, ih, filterMap_dropWhile_isNumeralChar,
      List.filterMap_cons_none (ofChar?_of_isNumeralChar hc)]
  | case3 operandNext c rest digits afterDigits hc hsign ih =>
    -- a sign is an operator by itself, and no operator is a parenthesis
    simp only [Bool.and_eq_true, decide_eq_true_eq] at hsign
    have hminus : Token.ofChar? c = some (.operator .subtract) := by
      rw [hsign.1.1]
      rfl
    rw [unopenedFrom_number, ih, filterMap_dropWhile_isNumeralChar,
      List.filterMap_cons_some hminus, unopenedFrom_operator]
  | case4 operandNext c rest digits hc hsign token htoken ih =>
    rw [unopenedFrom_cons, ih, List.filterMap_cons_some htoken, unopenedFrom_cons]
  | case5 operandNext c rest digits hc hsign htoken ih =>
    rw [ih, List.filterMap_cons_none htoken]

theorem unopened_scan (text : Text) :
    unopened (scan text) = unopened (text.filterMap Token.ofChar?) := by
  have hblank : (text.filter (!isBlank ·)).filterMap Token.ofChar? =
      text.filterMap Token.ofChar? := by
    rw [List.filterMap_filter]
    refine List.filterMap_congr fun c _ ↦ ?_
    cases h : isBlank c with
    | false => rfl
    | true => exact (ofChar?_of_isBlank h).symm
  rw [unopened, scan, unopenedFrom_scanFrom, hblank, unopened]

/-- **Unopened parentheses.** A closing parenthesis that has no opening one to close acts as if its
opening one stood at the very start: the tokens have the same postfix order with as many opening
parentheses in front, and the text of an expression has the same value with as many typed in front
of it. -/
theorem postfixOrder_opened_in_front :
    (∀ tokens : List Token,
      postfixOrder (List.replicate (unopened tokens) .openParen ++ tokens) =
        postfixOrder tokens) ∧
    ∀ (places : ℕ) (expression : Text),
      roundedValue? places
          (List.replicate (unopened (expression.filterMap Token.ofChar?)) '(' ++ expression) =
        roundedValue? places expression := by
  refine ⟨postfixOrder_replicate_append, fun places expression ↦ ?_⟩
  rw [← unopened_scan, roundedValue?, scan_replicate_append, tokensValue_replicate_append]
  rfl

end PocketCalculator
