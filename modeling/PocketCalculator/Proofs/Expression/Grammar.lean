import PocketCalculator.Calculation.Basic

/-!
# Well-formed expressions

Reading, ordering and evaluating are three loops over three kinds of list. On a text that a grammar
derives, together they compute what the derivation means: this file defines the grammar, the text
and the value of a derivation, and shows that the value of the text is the value of the derivation.

## The grammar

A sum is a product, or a sum and a product with `+` or `-` between them; a product is a factor, or
a product and a factor with `*` or `/` between them; a factor is a literal, or a sum in
parentheses. A literal is digits and points, at least one, with or without a minus in front.

## The invariant

While a phrase is put into postfix order, some of its operators are already out and some still
wait. The ones that wait lie together on top of what waited before, they bind at least as strongly
as the phrase, and they come after all that is out: `out ++ pending` is the phrase in postfix order
(`OrdersTo`). Nothing that waited before is touched, since a phrase is only
read where whatever waits on top binds less strongly than the phrase.
-/

namespace PocketCalculator

/-! ## Derivations -/

/-- A number as a grammar has it. Not every literal is a numeral. -/
structure Literal where
  /-- Whether a minus stands in front. -/
  negative : Bool
  /-- Digits and points. -/
  digits : Text
  /-- At least one. -/
  digits_ne_nil : digits ≠ []
  /-- Nothing else. -/
  isNumeralChar_of_mem : ∀ c ∈ digits, isNumeralChar c = true

def Literal.text (l : Literal) : Text :=
  Binary64.signText l.negative ++ l.digits

/-- What a phrase may be, from the loosest to the tightest. -/
inductive PhraseKind
  | sum
  | product
  | factor

/-- The derivations of the grammar. -/
inductive Phrase : PhraseKind → Type
  | literal (l : Literal) : Phrase .factor
  | group (e : Phrase .sum) : Phrase .factor
  | ofFactor (f : Phrase .factor) : Phrase .product
  | product (t : Phrase .product) (op : Operator) (hop : op = .multiply ∨ op = .divide)
      (f : Phrase .factor) : Phrase .product
  | ofProduct (t : Phrase .product) : Phrase .sum
  | sum (e : Phrase .sum) (op : Operator) (hop : op = .add ∨ op = .subtract)
      (t : Phrase .product) : Phrase .sum

namespace Phrase

variable {k : PhraseKind}

/-- The text that is derived, without blanks. -/
def text : {k : PhraseKind} → Phrase k → Text
  | _, literal l => l.text
  | _, group e => '(' :: (e.text ++ [')'])
  | _, ofFactor f => f.text
  | _, product t op _ f => t.text ++ op.symbol :: f.text
  | _, ofProduct t => t.text
  | _, sum e op _ t => e.text ++ op.symbol :: t.text

/-- The value of a derivation: an operator is applied to the values of its two phrases. -/
def value : {k : PhraseKind} → Phrase k → Binary64
  | _, literal l => numberValue l.text
  | _, group e => e.value
  | _, ofFactor f => f.value
  | _, product t op _ f => op.apply t.value f.value
  | _, ofProduct t => t.value
  | _, sum e op _ t => op.apply e.value t.value

def tokens : {k : PhraseKind} → Phrase k → List Token
  | _, literal l => [.number l.text]
  | _, group e => .openParen :: (e.tokens ++ [.closeParen])
  | _, ofFactor f => f.tokens
  | _, product t op _ f => t.tokens ++ .operator op :: f.tokens
  | _, ofProduct t => t.tokens
  | _, sum e op _ t => e.tokens ++ .operator op :: t.tokens

/-- The derivation in postfix order, every operator after its operands. -/
def postfixTokens : {k : PhraseKind} → Phrase k → List Token
  | _, literal l => [.number l.text]
  | _, group e => e.postfixTokens
  | _, ofFactor f => f.postfixTokens
  | _, product t op _ f => t.postfixTokens ++ (f.postfixTokens ++ [.operator op])
  | _, ofProduct t => t.postfixTokens
  | _, sum e op _ t => e.postfixTokens ++ (t.postfixTokens ++ [.operator op])

end Phrase

/-- The second text is the first with blanks put in anywhere. -/
inductive WithBlanks : Text → Text → Prop
  | nil : WithBlanks [] []
  | keep (c : Char) {text typed : Text} (h : WithBlanks text typed) :
      WithBlanks (c :: text) (c :: typed)
  | blank {c : Char} (hc : isBlank c = true) {text typed : Text} (h : WithBlanks text typed) :
      WithBlanks text (c :: typed)

/-! ## Blanks -/

theorem isNumeralChar_of_isDigit {c : Char} (h : c.isDigit = true) : isNumeralChar c = true :=
  Bool.or_eq_true_iff.mpr (.inl h)

theorem isBlank_of_isNumeralChar {c : Char} (h : isNumeralChar c = true) : isBlank c = false := by
  have hrange : 46 ≤ c.toNat ∧ c.toNat ≤ 57 := by
    rcases Bool.or_eq_true_iff.mp h with hdigit | hpoint
    · obtain ⟨hlow, hhigh⟩ := Char.isDigit_iff_toNat.mp hdigit
      have hzero : '0'.toNat = 48 := rfl
      exact ⟨by omega, hhigh⟩
    · rw [of_decide_eq_true hpoint]
      decide
  rw [isBlank, ← Bool.not_eq_true, CharClass.contains_iff]
  rintro ⟨range, hmem, hlow, hhigh⟩
  simp only [blankClass, List.mem_cons, List.not_mem_nil, or_false] at hmem
  rcases hmem with rfl | rfl | rfl | rfl | rfl | rfl | rfl | rfl | rfl | rfl <;> omega

theorem isBlank_symbol (op : Operator) : isBlank op.symbol = false := by
  cases op <;> decide

theorem isNumeralChar_symbol (op : Operator) : isNumeralChar op.symbol = false := by
  cases op <;> decide

theorem ofChar?_symbol (op : Operator) : Token.ofChar? op.symbol = some (.operator op) := by
  cases op <;> rfl

theorem Literal.isBlank_of_mem {l : Literal} : ∀ c ∈ l.text, isBlank c = false := by
  intro c hc
  rw [text, List.mem_append] at hc
  rcases hc with hsign | hdigits
  · rw [Binary64.signText] at hsign
    split at hsign
    · rw [List.mem_singleton.mp hsign]
      decide
    · exact absurd hsign List.not_mem_nil
  · exact isBlank_of_isNumeralChar (l.isNumeralChar_of_mem c hdigits)

theorem Phrase.isBlank_of_mem {k : PhraseKind} (e : Phrase k) :
    ∀ c ∈ e.text, isBlank c = false := by
  induction e with
  | literal l => exact l.isBlank_of_mem
  | group e ih =>
    intro c hc
    simp only [text, List.mem_cons, List.mem_append, List.not_mem_nil, or_false] at hc
    rcases hc with rfl | hc | rfl
    · decide
    · exact ih c hc
    · decide
  | ofFactor f ih => exact ih
  | ofProduct t ih => exact ih
  | product t op hop f iht ihf | sum e op hop t iht ihf =>
    intro c hc
    simp only [text, List.mem_cons, List.mem_append] at hc
    rcases hc with hc | rfl | hc
    · exact iht c hc
    · exact isBlank_symbol op
    · exact ihf c hc

theorem WithBlanks.filter_eq {text typed : Text} (h : WithBlanks text typed)
    (htext : ∀ c ∈ text, isBlank c = false) : typed.filter (!isBlank ·) = text := by
  induction h with
  | nil => rfl
  | keep c _ ih =>
    have hc := htext c List.mem_cons_self
    rw [List.filter_cons_of_pos (by simp [hc]), ih fun d hd ↦ htext d (List.mem_cons_of_mem c hd)]
  | blank hc _ ih => rw [List.filter_cons_of_neg (by simp [hc]), ih htext]

/-! ## Reading -/

/-- An operator after an operand is read as such, a minus too. -/
theorem scanFrom_symbol (op : Operator) (rest : Text) :
    scanFrom false (op.symbol :: rest) = .operator op :: scanFrom true rest := by
  rw [scanFrom_char (isNumeralChar_symbol op) (ofChar?_symbol op)
    fun _ h ↦ absurd h Bool.false_ne_true]
  rfl

theorem takeWhile_digits_append (l : Literal) {rest : Text}
    (hrest : rest.takeWhile isNumeralChar = []) :
    (l.digits ++ rest).takeWhile isNumeralChar = l.digits := by
  rw [List.takeWhile_append_of_pos l.isNumeralChar_of_mem, hrest, List.append_nil]

theorem dropWhile_digits_append (l : Literal) {rest : Text}
    (hrest : rest.takeWhile isNumeralChar = []) :
    (l.digits ++ rest).dropWhile isNumeralChar = rest := by
  rw [List.dropWhile_append_of_pos l.isNumeralChar_of_mem]
  have h := List.takeWhile_append_dropWhile (p := isNumeralChar) (l := rest)
  rwa [hrest, List.nil_append] at h

theorem Literal.scanFrom_append (l : Literal) {rest : Text}
    (hrest : rest.takeWhile isNumeralChar = []) :
    scanFrom true (l.text ++ rest) = .number l.text :: scanFrom false rest := by
  have htake := takeWhile_digits_append l hrest
  have hdrop := dropWhile_digits_append l hrest
  cases hneg : l.negative with
  | true =>
    have htext : l.text = '-' :: l.digits := by rw [text, hneg]; rfl
    rw [htext, List.cons_append, scanFrom_sign (by rw [htake]; exact l.digits_ne_nil), htake,
      hdrop]
  | false =>
    have htext : l.text = l.digits := by rw [text, hneg]; rfl
    obtain ⟨c, digits, hdigits⟩ := List.exists_cons_of_ne_nil l.digits_ne_nil
    have hc : isNumeralChar c = true := l.isNumeralChar_of_mem c (by simp [hdigits])
    rw [hdigits, List.cons_append, List.takeWhile_cons_of_pos hc, List.cons_inj_right] at htake
    rw [hdigits, List.cons_append, List.dropWhile_cons_of_pos hc] at hdrop
    rw [htext, hdigits, List.cons_append, scanFrom_number hc, htake, hdrop]

/-- The text of a phrase is read as its tokens, whatever follows it, unless that would make its
last number longer. -/
theorem Phrase.scanFrom_append {k : PhraseKind} (e : Phrase k) :
    ∀ {rest : Text}, rest.takeWhile isNumeralChar = [] →
      scanFrom true (e.text ++ rest) = e.tokens ++ scanFrom false rest := by
  induction e with
  | literal l => exact fun hrest ↦ l.scanFrom_append hrest
  | group e ih =>
    intro rest _
    have hopen : scanFrom true ('(' :: (e.text ++ ')' :: rest)) =
        .openParen :: scanFrom true (e.text ++ ')' :: rest) :=
      scanFrom_char (by decide) rfl fun h ↦ absurd h (by decide)
    have hclose : scanFrom false (')' :: rest) = .closeParen :: scanFrom false rest :=
      scanFrom_char (by decide) rfl fun h ↦ absurd h (by decide)
    simp only [text, tokens, List.cons_append, List.append_assoc, List.nil_append]
    rw [hopen, ih rfl, hclose]
  | ofFactor f ih => exact ih
  | ofProduct t ih => exact ih
  | product t op hop f iht ihf | sum e op hop t iht ihf =>
    intro rest hrest
    have hop' : (op.symbol :: (Phrase.text ‹_› ++ rest)).takeWhile isNumeralChar = [] := by
      cases op <;> rfl
    simp only [text, tokens, List.cons_append, List.append_assoc]
    rw [iht hop', scanFrom_symbol, ihf hrest]

theorem Phrase.scan_eq {k : PhraseKind} (e : Phrase k) {typed : Text}
    (h : WithBlanks e.text typed) : scan typed = e.tokens := by
  have hscan : scanFrom true (e.text ++ []) = e.tokens ++ scanFrom false [] := e.scanFrom_append rfl
  rw [scanFrom_nil, List.append_nil, List.append_nil] at hscan
  rw [scan, h.filter_eq e.isBlank_of_mem, hscan]

/-! ## Ordering -/

/-- The least precedence of an operator that may wait when a phrase of a kind has been read. -/
def PhraseKind.precedence : PhraseKind → Nat
  | sum => 1
  | product => 2
  | factor => 3

/-- Whether what waits stays where it is while a phrase of a kind is read: an operator on top of
it binds less strongly than the phrase. -/
def PhraseKind.Shields (k : PhraseKind) (waiting : List Token) : Prop :=
  ∀ op, waiting.head? = some (.operator op) → op.precedence < k.precedence

/-- An operator releases the operators on top that bind at least as strongly, up to the first
thing that does not. -/
theorem orderFrom_operator {op : Operator} {pending : List Operator} {waiting : List Token}
    (hpending : ∀ p ∈ pending, op.precedence ≤ p.precedence)
    (hwaiting : ∀ p, waiting.head? = some (.operator p) → p.precedence < op.precedence)
    (rest : List Token) :
    orderFrom (pending.map .operator ++ waiting) (.operator op :: rest) =
      pending.map .operator ++ orderFrom (.operator op :: waiting) rest := by
  have hall : ∀ t ∈ pending.map Token.operator, isReleasedBy op t = true := by
    intro t ht
    obtain ⟨p, hp, rfl⟩ := List.mem_map.mp ht
    exact decide_eq_true (hpending p hp)
  have hnone : waiting.takeWhile (isReleasedBy op) = [] ∧
      waiting.dropWhile (isReleasedBy op) = waiting := by
    cases waiting with
    | nil => exact ⟨rfl, rfl⟩
    | cons t below =>
      have ht : ¬ isReleasedBy op t = true := by
        cases t with
        | operator p =>
          have hlt := hwaiting p rfl
          simpa [isReleasedBy] using hlt
        | number text | openParen | closeParen => exact Bool.false_ne_true
      exact ⟨List.takeWhile_cons_of_neg ht, List.dropWhile_cons_of_neg ht⟩
  rw [orderFrom_cons, released, stillWaiting, List.takeWhile_append_of_pos hall,
    List.dropWhile_append_of_pos hall, hnone.1, hnone.2, List.append_nil]

/-- **The invariant.** Wherever tokens of a kind may be read, part of their postfix order is out
when they have been read and the rest waits: operators that bind at least as strongly as the kind,
on top of what waited before. -/
def OrdersTo (k : PhraseKind) (tokens inOrder : List Token) : Prop :=
  ∀ waiting : List Token, k.Shields waiting → ∀ rest : List Token,
    ∃ (out : List Token) (pending : List Operator),
      out ++ pending.map .operator = inOrder ∧
      (∀ p ∈ pending, k.precedence ≤ p.precedence) ∧
      orderFrom waiting (tokens ++ rest) = out ++ orderFrom (pending.map .operator ++ waiting) rest

theorem ordersTo_number (k : PhraseKind) (text : Text) :
    OrdersTo k [.number text] [.number text] :=
  fun _ _ _ ↦ ⟨[.number text], [], rfl, fun _ hp ↦ absurd hp List.not_mem_nil, rfl⟩

theorem OrdersTo.loosen {k l : PhraseKind} (hkl : l.precedence ≤ k.precedence)
    {tokens inOrder : List Token} (h : OrdersTo k tokens inOrder) : OrdersTo l tokens inOrder := by
  intro waiting hwaiting rest
  obtain ⟨out, pending, hout, hpending, horder⟩ :=
    h waiting (fun op hop ↦ Nat.lt_of_lt_of_le (hwaiting op hop) hkl) rest
  exact ⟨out, pending, hout, fun p hp ↦ Nat.le_trans hkl (hpending p hp), horder⟩

theorem OrdersTo.group {k : PhraseKind} {tokens inOrder : List Token}
    (h : OrdersTo .sum tokens inOrder) :
    OrdersTo k (.openParen :: (tokens ++ [.closeParen])) inOrder := by
  intro waiting _ rest
  -- an opening parenthesis on top shields all that waited before
  have hshields : PhraseKind.sum.Shields (.openParen :: waiting) := by
    intro op hop
    cases hop
  obtain ⟨out, pending, hout, -, horder⟩ := h _ hshields (.closeParen :: rest)
  have hpending : Token.openParen ∉ pending.map Token.operator := by simp
  refine ⟨inOrder, [], List.append_nil _, fun p hp ↦ absurd hp List.not_mem_nil, ?_⟩
  rw [List.cons_append, List.append_assoc, orderFrom_openParen, List.singleton_append, horder,
    orderFrom_closeParen hpending, ← List.append_assoc, hout]
  rfl

/-- An operator releases what still waits of its left operand, and then waits itself below what
waits of its right operand. -/
theorem OrdersTo.operator {k l : PhraseKind} {op : Operator} (hop : op.precedence = k.precedence)
    (hl : l.precedence = op.precedence + 1) {left leftOrder right rightOrder : List Token}
    (hleft : OrdersTo k left leftOrder) (hright : OrdersTo l right rightOrder) :
    OrdersTo k (left ++ .operator op :: right) (leftOrder ++ (rightOrder ++ [.operator op])) := by
  intro waiting hwaiting rest
  have hshields : l.Shields (.operator op :: waiting) := by
    intro p hp
    cases hp
    omega
  obtain ⟨out₁, pending₁, hout₁, hpending₁, horder₁⟩ :=
    hleft waiting hwaiting (.operator op :: (right ++ rest))
  obtain ⟨out₂, pending₂, hout₂, hpending₂, horder₂⟩ := hright _ hshields rest
  have hreleased : orderFrom (pending₁.map .operator ++ waiting) (.operator op :: (right ++ rest)) =
      pending₁.map .operator ++ orderFrom (.operator op :: waiting) (right ++ rest) :=
    orderFrom_operator (fun p hp ↦ hop ▸ hpending₁ p hp) (fun p hp ↦ hop ▸ hwaiting p hp) _
  refine ⟨leftOrder ++ out₂, pending₂ ++ [op], ?_, ?_, ?_⟩
  · rw [List.map_append, List.append_assoc, ← List.append_assoc out₂, hout₂]
    rfl
  · intro p hp
    rcases List.mem_append.mp hp with hp | hp
    · have := hpending₂ p hp
      omega
    · rw [List.mem_singleton.mp hp]
      exact Nat.le_of_eq hop.symm
  · calc orderFrom waiting (left ++ .operator op :: right ++ rest)
        = out₁ ++ (pending₁.map .operator ++
            orderFrom (.operator op :: waiting) (right ++ rest)) := by
          rw [List.append_assoc, List.cons_append, horder₁, hreleased]
      _ = leftOrder ++
            (out₂ ++ orderFrom (pending₂.map .operator ++ .operator op :: waiting) rest) := by
          rw [← List.append_assoc, hout₁, horder₂]
      _ = leftOrder ++ out₂ ++
            orderFrom ((pending₂ ++ [op]).map .operator ++ waiting) rest := by
          simp

namespace Phrase

/-- Every phrase is put into postfix order operand by operand. -/
theorem ordersTo {k : PhraseKind} (e : Phrase k) : OrdersTo k e.tokens e.postfixTokens := by
  induction e with
  | literal l => exact ordersTo_number _ _
  | group e ih => exact ih.group
  | ofFactor f ih | ofProduct f ih => exact ih.loosen (by decide)
  | product t op hop f iht ihf =>
    rcases hop with rfl | rfl <;> exact iht.operator rfl rfl ihf
  | sum e op hop t ihe iht =>
    rcases hop with rfl | rfl <;> exact ihe.operator rfl rfl iht

theorem postfixOrder_tokens (e : Phrase .sum) : postfixOrder e.tokens = e.postfixTokens := by
  obtain ⟨out, pending, hout, -, horder⟩ := e.ordersTo [] (fun op hop ↦ by cases hop) []
  rw [List.append_nil, List.append_nil] at horder
  rw [postfixOrder, horder, orderFrom_nil, hout]

/-! ## Evaluating -/

/-- What is left on the stack by the postfix order of a phrase is its value. -/
theorem postfixValueFrom_append {k : PhraseKind} (e : Phrase k) :
    ∀ (stack : List Binary64) (rest : List Token),
      postfixValueFrom stack (e.postfixTokens ++ rest) =
        postfixValueFrom (e.value :: stack) rest := by
  induction e with
  | literal l => exact fun stack rest ↦ rfl
  | group e ih => exact ih
  | ofFactor f ih | ofProduct f ih => exact ih
  | product t op hop f iht ihf | sum e op hop t iht ihf =>
    intro stack rest
    rw [postfixTokens, List.append_assoc, List.append_assoc, iht, ihf, List.singleton_append,
      postfixValueFrom_operator, value]

theorem postfixTokens_ne_nil {k : PhraseKind} (e : Phrase k) : e.postfixTokens ≠ [] := by
  induction e with
  | literal l => exact List.cons_ne_nil _ _
  | group e ih | ofFactor f ih | ofProduct f ih => exact ih
  | product t op hop f iht ihf | sum e op hop t iht ihf =>
    exact List.append_ne_nil_of_left_ne_nil iht _

theorem tokensValue_tokens (e : Phrase .sum) : tokensValue e.tokens = e.value := by
  have hne : e.tokens.isEmpty = false := by
    rw [List.isEmpty_eq_false_iff]
    intro hnil
    have horder := e.postfixOrder_tokens
    rw [hnil] at horder
    exact e.postfixTokens_ne_nil horder.symm
  have hvalue := e.postfixValueFrom_append [] []
  rw [List.append_nil] at hvalue
  rw [tokensValue, if_neg (by simp [hne]), e.postfixOrder_tokens, postfixValue, hvalue]
  rfl

end Phrase

/-! ## The whole calculation -/

/-- **A derived text has the value of its derivation.** However blanks are put in and to whatever
number of places it is rounded, the value of a derived text is the rounded value of its derivation
if that is finite, and there is none otherwise. -/
theorem roundedValue?_eq_of_withBlanks (e : Phrase .sum) {typed : Text}
    (h : WithBlanks e.text typed) (places : Nat) :
    roundedValue? places typed =
      if e.value.isFinite then some (e.value.roundToPlaces places) else none := by
  rw [roundedValue?, e.scan_eq h, e.tokensValue_tokens]

/-- A blank may stand within a literal, here between a sign and its digits: `(2 - - 3)*4`. -/
theorem roundedValue?_two_minus_negative_three_times_four :
    WithBlanks ['(', '2', '-', '-', '3', ')', '*', '4']
        ['(', '2', ' ', '-', ' ', '-', ' ', '3', ')', '*', '4'] ∧
      let value := Operator.multiply.apply
        (Operator.subtract.apply (numberValue ['2']) (numberValue ['-', '3'])) (numberValue ['4'])
      roundedValue? 12 ['(', '2', ' ', '-', ' ', '-', ' ', '3', ')', '*', '4'] =
        if value.isFinite then some (value.roundToPlaces 12) else none := by
  have h : WithBlanks ['(', '2', '-', '-', '3', ')', '*', '4']
      ['(', '2', ' ', '-', ' ', '-', ' ', '3', ')', '*', '4'] :=
    .keep _ (.keep _ (.blank rfl (.keep _ (.blank rfl (.keep _ (.blank rfl (.keep _ (.keep _
      (.keep _ (.keep _ .nil))))))))))
  let two : Literal :=
    ⟨false, ['2'], List.cons_ne_nil _ _, List.forall_mem_singleton.mpr rfl⟩
  let three : Literal :=
    ⟨true, ['3'], List.cons_ne_nil _ _, List.forall_mem_singleton.mpr rfl⟩
  let four : Literal :=
    ⟨false, ['4'], List.cons_ne_nil _ _, List.forall_mem_singleton.mpr rfl⟩
  let difference : Phrase .sum :=
    .sum (.ofProduct (.ofFactor (.literal two))) .subtract (.inr rfl) (.ofFactor (.literal three))
  let product : Phrase .product :=
    .product (.ofFactor (.group difference)) .multiply (.inl rfl) (.literal four)
  exact ⟨h, roundedValue?_eq_of_withBlanks (.ofProduct product) h 12⟩

end PocketCalculator
