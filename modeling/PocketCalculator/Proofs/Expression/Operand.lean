import PocketCalculator.Proofs.Decimal.ReadBack

/-!
# Operands

How a minus is read depends on what was read before it, so the tokens of a text that is typed after
another one are in general not those that it has by itself. But any text can be cut in front of a
character that belongs to no number: what is read before the cut does not depend on what follows,
and all that it leaves behind is whether an operand must come next (`scanFrom_append_cons`).

Where an operand must come, a literal is one number, with its minus. The text of a finite number is
a literal, so it can be put into an expression wherever an operand may stand, whatever its sign, and
is read back there as the number (`scan_append_toText`).
-/

namespace PocketCalculator

/-! ## Cutting a text -/

/-- Whether an operand must come next after tokens; without any token, whether it must at the
start. -/
def operandNextAfter (operandNext : Bool) (tokens : List Token) : Bool :=
  (tokens.getLast?.map Token.awaitsOperand).getD operandNext

theorem operandNextAfter_cons (operandNext : Bool) (token : Token) (tokens : List Token) :
    operandNextAfter operandNext (token :: tokens) =
      operandNextAfter token.awaitsOperand tokens := by
  cases tokens with
  | nil => rfl
  | cons next rest =>
    rw [operandNextAfter, operandNextAfter, List.getLast?_cons_cons, List.getLast?_cons]
    rfl

theorem operandNextAfter_concat (operandNext : Bool) (tokens : List Token) (token : Token) :
    operandNextAfter operandNext (tokens ++ [token]) = token.awaitsOperand := by
  rw [operandNextAfter, List.getLast?_concat]
  rfl

/-- **Cutting.** Before a character that belongs to no number, a text is read as if nothing
followed, and the rest is read from there. The cases are the ways of going on that reading has. -/
theorem scanFrom_append_cons {c : Char} (hc : isNumeralChar c = false) (operandNext : Bool)
    (before rest : Text) :
    scanFrom operandNext (before ++ c :: rest) =
      scanFrom operandNext before ++
        scanFrom (operandNextAfter operandNext (scanFrom operandNext before)) (c :: rest) := by
  fun_induction scanFrom operandNext before with
  | case1 => rfl
  | case2 operandNext d tail digits afterDigits hd ih =>
    rw [List.cons_append, scanFrom_number hd, takeWhile_append_cons hc, dropWhile_append_cons hc,
      ih, operandNextAfter_cons, List.cons_append]
    rfl
  | case3 operandNext d tail digits afterDigits hd hsign ih =>
    simp only [Bool.and_eq_true, decide_eq_true_eq, Bool.not_eq_true', List.isEmpty_eq_false_iff]
      at hsign
    obtain ⟨⟨rfl, rfl⟩, hdigits⟩ := hsign
    -- the digits that make the minus a sign stand before the cut
    have hdigits' : (tail ++ c :: rest).takeWhile isNumeralChar ≠ [] := by
      rwa [takeWhile_append_cons hc]
    rw [List.cons_append, scanFrom_sign hdigits', takeWhile_append_cons hc,
      dropWhile_append_cons hc, ih, operandNextAfter_cons, List.cons_append]
    rfl
  | case4 operandNext d tail digits hd hsign token htoken ih =>
    -- a minus without digits before the cut gets none after it
    have hbare : d = '-' → operandNext = true →
        (tail ++ c :: rest).takeWhile isNumeralChar = [] := by
      rintro rfl rfl
      rw [takeWhile_append_cons hc]
      by_contra hdigits
      have hempty : digits.isEmpty = false := List.isEmpty_eq_false_iff.mpr hdigits
      exact hsign (by rw [hempty]; rfl)
    rw [List.cons_append, scanFrom_char (Bool.not_eq_true _ ▸ hd) htoken hbare, ih,
      operandNextAfter_cons, List.cons_append]
  | case5 operandNext d tail digits hd hsign htoken ih =>
    rw [List.cons_append, scanFrom_skip (Bool.not_eq_true _ ▸ hd) htoken, ih]

/-! ## Where an operand may stand -/

/-- Whether an operand may be typed at the end of a text: after an opening parenthesis and after an
operator. A minus is an operator there if the token before it ends an operand. -/
inductive ReadyForOperand : Text → Prop
  | openParen (before : Text) : ReadyForOperand (before ++ ['('])
  | operator (before : Text) {op : Operator} (hop : op ≠ .subtract) :
      ReadyForOperand (before ++ [op.symbol])
  | minus (before : Text) {tokens : List Token} {token : Token}
      (htoken : token.awaitsOperand = false)
      (hscan : scan (before ++ ['-']) = tokens ++ [token, .operator .subtract]) :
      ReadyForOperand (before ++ ['-'])

theorem scan_append_cons {c : Char} (hblank : isBlank c = false) (hc : isNumeralChar c = false)
    (before rest : Text) :
    scan (before ++ c :: rest) =
      scan before ++
        scanFrom (operandNextAfter true (scan before)) (c :: rest.filter (!isBlank ·)) := by
  rw [scan, List.filter_append, List.filter_cons_of_pos (by simp [hblank]), scanFrom_append_cons hc]
  rfl

theorem Literal.scanFrom_text (l : Literal) :
    scanFrom true (l.text.filter (!isBlank ·)) = [.number l.text] := by
  have hfilter : l.text.filter (!isBlank ·) = l.text :=
    List.filter_eq_self.mpr fun c hc ↦ by rw [l.isBlank_of_mem c hc, Bool.not_false]
  have hscan : scanFrom true (l.text ++ []) = .number l.text :: scanFrom false [] :=
    l.scanFrom_append rfl
  rw [List.append_nil, scanFrom_nil] at hscan
  rw [hfilter, hscan]

/-- A literal typed after a token that awaits an operand is one more token. The minus needs a
condition, since by itself it may be the sign of the literal. -/
theorem scan_append_cons_literal {c : Char} (hblank : isBlank c = false)
    (hc : isNumeralChar c = false) {token : Token} (htoken : Token.ofChar? c = some token)
    (hawaits : token.awaitsOperand = true) {before : Text}
    (hminus : c = '-' → operandNextAfter true (scan before) = false) (l : Literal) :
    scan (before ++ [c] ++ l.text) = scan (before ++ [c]) ++ [.number l.text] := by
  have hchar : ∀ rest, scanFrom (operandNextAfter true (scan before)) (c :: rest) =
      token :: scanFrom true rest := by
    intro rest
    rw [scanFrom_char hc htoken fun h htrue ↦ ?_, hawaits]
    rw [hminus h] at htrue
    exact absurd htrue Bool.false_ne_true
  rw [List.append_assoc, List.singleton_append, scan_append_cons hblank hc,
    scan_append_cons hblank hc, hchar, hchar, l.scanFrom_text, List.filter_nil, scanFrom_nil,
    List.append_assoc, List.singleton_append]

/-- A minus at the end of a text is an operator, whatever it would be if a number followed. -/
theorem scan_append_minus (before : Text) :
    scan (before ++ ['-']) = scan before ++ [.operator .subtract] := by
  have hminus : ∀ operandNext, scanFrom operandNext ['-'] = [.operator .subtract] := by
    intro operandNext
    have hchar : scanFrom operandNext ['-'] = .operator .subtract :: scanFrom true [] :=
      scanFrom_char (by decide) rfl fun _ _ ↦ rfl
    rwa [scanFrom_nil] at hchar
  rw [scan_append_cons (by decide) (by decide), List.filter_nil, hminus]

theorem ReadyForOperand.scan_append {before : Text} (h : ReadyForOperand before) (l : Literal) :
    scan (before ++ l.text) = scan before ++ [.number l.text] := by
  cases h with
  | openParen before =>
    exact scan_append_cons_literal (by decide) (by decide) rfl rfl (fun h ↦ absurd h (by decide)) l
  | operator before hop =>
    refine scan_append_cons_literal (isBlank_symbol _) (isNumeralChar_symbol _) (ofChar?_symbol _)
      rfl (fun h ↦ absurd ?_ hop) l
    -- a symbol stands for one operator only
    exact Option.some_inj.mp ((Operator.ofSymbol?_symbol _).symm.trans (congrArg _ h))
  | @minus before tokens token htoken hscan =>
    refine scan_append_cons_literal (by decide) (by decide) rfl rfl (fun _ ↦ ?_) l
    rw [scan_append_minus, List.append_cons tokens token] at hscan
    rw [List.append_inj_left' hscan rfl, operandNextAfter_concat, htoken]

/-! ## The text of a number as an operand -/

theorem Binary64.exists_literal_toText {x : Binary64} (hx : x.isFinite = true) :
    ∃ l : Literal, x.toText = l.text := by
  obtain ⟨negative, text, hpositional, htext⟩ := exists_isPositional_toText hx
  exact ⟨⟨negative, text, hpositional.ne_nil, hpositional.isNumeralChar_of_mem⟩, htext⟩

/-- **The text of a number is an operand.** The text of a finite number is read as one token whose
value is the number, with the positive zero for both zeros. Typed wherever an operand may stand, it
is that one token again, and all that stands before it is read as before. -/
theorem Binary64.scan_append_toText {x : Binary64} (hx : x.isFinite = true) :
    scan x.toText = [.number x.toText] ∧
      postfixValue (postfixOrder (scan x.toText)) = x.clearZeroSign ∧
      ∀ {before : Text}, ReadyForOperand before →
        scan (before ++ x.toText) = scan before ++ [.number x.toText] := by
  have hscan := scan_toText hx
  refine ⟨hscan, ?_, fun hbefore ↦ ?_⟩
  · rw [← tokensValue_scan_toText hx, tokensValue, hscan]
    rfl
  · obtain ⟨l, hl⟩ := exists_literal_toText hx
    rw [hl]
    exact hbefore.scan_append l

/-- A negative number after a minus: `5 - -0.5`. -/
theorem Binary64.scan_five_minus_negative_half :
    let half : Binary64 := .ofRat (-1 / 2)
    half.isFinite = true ∧ half.toText = ['-', '0', '.', '5'] ∧
      postfixValue (postfixOrder (scan half.toText)) = half ∧ ReadyForOperand ['5', '-'] ∧
      scan (['5', '-'] ++ half.toText) =
        [.number ['5'], .operator .subtract, .number ['-', '0', '.', '5']] := by
  have htext : (Binary64.ofRat (-1 / 2)).toText = ['-', '0', '.', '5'] := by decide +kernel
  have hfinite : (Binary64.ofRat (-1 / 2)).isFinite = true := by decide +kernel
  have hnonzero : (Binary64.ofRat (-1 / 2)).clearZeroSign = .ofRat (-1 / 2) := by decide +kernel
  have hminus : scan (['5'] ++ ['-']) = [] ++ [.number ['5'], .operator .subtract] := by
    decide +kernel
  have hready : ReadyForOperand ['5', '-'] := .minus ['5'] rfl hminus
  obtain ⟨-, hvalue, happend⟩ := scan_append_toText hfinite
  have hscan := happend hready
  rw [show scan ['5', '-'] = _ from hminus, htext] at hscan
  exact ⟨hfinite, htext, hvalue.trans hnonzero, hready, htext ▸ hscan⟩

end PocketCalculator
