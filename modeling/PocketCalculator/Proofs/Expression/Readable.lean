import PocketCalculator.Proofs.Expression.Lossless
import PocketCalculator.Proofs.Expression.Operand

/-!
# Which tokens can be read

Reading is not onto: no text is read as the number `5x`, and none as the numbers `1` and `-2` one
after the other, since a minus after a number is an operator. These are the only obstacles. A list
of tokens is read from some text exactly if its numbers are literals and a number with a minus in
front comes first or directly after an operator or an opening parenthesis (`IsReadable`).

The text can be given: the tokens as they are typed, with a character between any two of them that
means nothing to the calculator. A blank would not do. It is taken out before the text is read, so
that two numbers would become one, and a minus that is an operator would become the sign of the
number after it.
-/

namespace PocketCalculator

/-- Whether a token is a number with a minus in front. -/
def Token.isSigned : Token → Bool
  | number ('-' :: _) => true
  | _ => false

/-- Whether a token can be typed: if it is a number, it is a literal. -/
def Token.IsTypeable (token : Token) : Prop :=
  ∀ text, token = .number text → ∃ l : Literal, text = l.text

/-- The lists of tokens that texts are read as. -/
structure IsReadable (tokens : List Token) : Prop where
  /-- Every number is a literal. -/
  isTypeable : ∀ token ∈ tokens, token.IsTypeable
  /-- A number with a minus in front comes first or where an operand must come. -/
  isChain : tokens.IsChain fun before token ↦
    token.isSigned = true → before = .openParen ∨ ∃ op, before = .operator op

theorem Token.awaitsOperand_iff {token : Token} :
    token.awaitsOperand = true ↔ token = .openParen ∨ ∃ op, token = .operator op := by
  rcases token with text | op | _ | _ <;> simp [awaitsOperand]

theorem Token.isSigned_iff {token : Token} :
    token.isSigned = true ↔ ∃ digits, token = .number ('-' :: digits) := by
  constructor
  · intro h
    unfold isSigned at h
    split at h
    · exact ⟨_, rfl⟩
    · exact Bool.noConfusion h
  · rintro ⟨digits, rfl⟩
    rfl

theorem isReadable_nil : IsReadable [] :=
  ⟨List.forall_mem_nil _, .nil⟩

theorem isReadable_cons_iff {token : Token} {rest : List Token} :
    IsReadable (token :: rest) ↔
      token.IsTypeable ∧
        (∀ next ∈ rest.head?, next.isSigned = true → token.awaitsOperand = true) ∧
        IsReadable rest := by
  simp only [Token.awaitsOperand_iff]
  constructor
  · rintro ⟨htypeable, hchain⟩
    obtain ⟨htoken, hrest⟩ := List.forall_mem_cons.mp htypeable
    obtain ⟨hnext, hchain⟩ := List.isChain_cons.mp hchain
    exact ⟨htoken, hnext, hrest, hchain⟩
  · rintro ⟨htoken, hnext, hrest⟩
    exact ⟨List.forall_mem_cons.mpr ⟨htoken, hrest.isTypeable⟩,
      List.isChain_cons.mpr ⟨hnext, hrest.isChain⟩⟩

/-! ## What is read is readable -/

theorem exists_literal_of_run {digits : Text} (hne : digits ≠ [])
    (h : ∀ c ∈ digits, isNumeralChar c = true) :
    (∃ l : Literal, digits = l.text) ∧ ∃ l : Literal, '-' :: digits = l.text :=
  ⟨⟨⟨false, digits, hne, h⟩, rfl⟩, ⟨⟨true, digits, hne, h⟩, rfl⟩⟩

theorem not_isSigned_of_isNumeralChar {c : Char} (hc : isNumeralChar c = true) (digits : Text) :
    ¬ (Token.number (c :: digits)).isSigned = true := by
  rw [Token.isSigned_iff]
  rintro ⟨_, h⟩
  cases h
  exact absurd hc (by decide)

/-- The tokens of a text are readable, and they start with a number that has a minus in front only
if an operand must come next. One case for each way of going on. -/
theorem isReadable_scanFrom (operandNext : Bool) (text : Text) :
    IsReadable (scanFrom operandNext text) ∧
      ∀ token ∈ (scanFrom operandNext text).head?, token.isSigned = true → operandNext = true := by
  fun_induction scanFrom operandNext text with
  | case1 => exact ⟨isReadable_nil, fun token h ↦ absurd h (Option.not_mem_none token)⟩
  | case2 operandNext c rest digits afterDigits hc ih =>
    have hrun : ∀ d ∈ c :: digits, isNumeralChar d = true :=
      List.forall_mem_cons.mpr ⟨hc, fun d hd ↦ List.mem_takeWhile_imp hd⟩
    refine ⟨isReadable_cons_iff.mpr ⟨?_, ih.2, ih.1⟩, ?_⟩
    · rintro text ⟨⟩
      exact (exists_literal_of_run (List.cons_ne_nil _ _) hrun).1
    · rintro token ⟨⟩ hsigned
      exact absurd hsigned (not_isSigned_of_isNumeralChar hc digits)
  | case3 operandNext c rest digits afterDigits hc hsign ih =>
    simp only [Bool.and_eq_true, decide_eq_true_eq, Bool.not_eq_true', List.isEmpty_eq_false_iff]
      at hsign
    obtain ⟨⟨rfl, hoperand⟩, hdigits⟩ := hsign
    refine ⟨isReadable_cons_iff.mpr ⟨?_, ih.2, ih.1⟩, fun _ _ _ ↦ hoperand⟩
    rintro text ⟨⟩
    exact (exists_literal_of_run hdigits fun d hd ↦ List.mem_takeWhile_imp hd).2
  | case4 operandNext c rest digits hc hsign token htoken ih =>
    have hnumber := Token.ne_number_of_ofChar? htoken
    refine ⟨isReadable_cons_iff.mpr ⟨fun text h ↦ absurd h (hnumber text), ih.2, ih.1⟩, ?_⟩
    rintro token ⟨⟩ hsigned
    obtain ⟨text, htext⟩ := Token.isSigned_iff.mp hsigned
    exact absurd htext (hnumber _)
  | case5 operandNext c rest digits hc hsign htoken ih => exact ih

/-! ## What is readable is read -/

theorem scanFrom_text {token : Token} {operandNext : Bool} (htypeable : token.IsTypeable)
    (hsigned : token.isSigned = true → operandNext = true) :
    scanFrom operandNext token.text = [token] := by
  have hchar : ∀ {c : Char} {t : Token}, isNumeralChar c = false → Token.ofChar? c = some t →
      scanFrom operandNext [c] = [t] := by
    intro c t hc ht
    rw [scanFrom_char hc ht fun _ _ ↦ rfl, scanFrom_nil]
  rcases token with text | op | _ | _
  · obtain ⟨l, rfl⟩ := htypeable text rfl
    have hread : scanFrom true (l.text ++ []) = .number l.text :: scanFrom false [] :=
      l.scanFrom_append rfl
    rw [List.append_nil, scanFrom_nil] at hread
    rcases l with ⟨_ | _, digits, hne, hrun⟩
    · -- without a minus, it makes no difference whether an operand must come
      obtain ⟨c, rest, rfl⟩ := List.exists_cons_of_ne_nil hne
      have hc : isNumeralChar c = true := hrun c List.mem_cons_self
      exact (scanFrom_number hc operandNext rest).trans
        ((scanFrom_number hc true rest).symm.trans hread)
    · rw [hsigned rfl]
      exact hread
  · exact hchar (isNumeralChar_symbol op) (ofChar?_symbol op)
  · exact hchar (by decide) rfl
  · exact hchar (by decide) rfl

/-- Readable tokens are read back from what they are typed as, with a character that means nothing
between any two of them. -/
theorem scanFrom_intercalate {c : Char} (hc : isMeaningful c = false) {operandNext : Bool}
    {tokens : List Token} (h : IsReadable tokens)
    (hfirst : ∀ token ∈ tokens.head?, token.isSigned = true → operandNext = true) :
    scanFrom operandNext (List.intercalate [c] (tokens.map Token.text)) = tokens := by
  rw [isMeaningful, Bool.or_eq_false_iff, Option.isSome_eq_false_iff,
    Option.isNone_iff_eq_none] at hc
  induction tokens generalizing operandNext with
  | nil => exact scanFrom_nil operandNext
  | cons token rest ih =>
    obtain ⟨htypeable, hnext, hrest⟩ := isReadable_cons_iff.mp h
    have htoken : scanFrom operandNext token.text = [token] :=
      scanFrom_text htypeable (hfirst token rfl)
    rcases rest with _ | ⟨next, rest⟩
    · rwa [List.map_singleton, List.intercalate_singleton]
    · have hafter : operandNextAfter operandNext [token] = token.awaitsOperand :=
        operandNextAfter_concat operandNext [] token
      rw [List.map_cons, List.map_cons, List.intercalate_cons_cons, List.append_assoc,
        List.singleton_append, scanFrom_append_cons hc.1, htoken, scanFrom_skip hc.1 hc.2,
        ← List.map_cons, hafter, ih hrest hnext, List.singleton_append]

theorem Token.IsTypeable.isBlank_of_mem {token : Token} (h : token.IsTypeable) :
    ∀ c ∈ token.text, isBlank c = false := by
  rcases token with text | op | _ | _
  · obtain ⟨l, rfl⟩ := h text rfl
    exact l.isBlank_of_mem
  · exact fun c hc ↦ (List.mem_singleton.mp hc) ▸ isBlank_symbol op
  · exact fun c hc ↦ (List.mem_singleton.mp hc) ▸ (by decide)
  · exact fun c hc ↦ (List.mem_singleton.mp hc) ▸ (by decide)

theorem filter_intercalate {c : Char} (hblank : isBlank c = false) {tokens : List Token}
    (h : IsReadable tokens) :
    (List.intercalate [c] (tokens.map Token.text)).filter (!isBlank ·) =
      List.intercalate [c] (tokens.map Token.text) := by
  induction tokens with
  | nil => rfl
  | cons token rest ih =>
    obtain ⟨htypeable, -, hrest⟩ := isReadable_cons_iff.mp h
    have htoken : token.text.filter (!isBlank ·) = token.text :=
      List.filter_eq_self.mpr fun d hd ↦ by rw [htypeable.isBlank_of_mem d hd, Bool.not_false]
    rcases rest with _ | ⟨next, rest⟩
    · rwa [List.map_singleton, List.intercalate_singleton]
    · rw [List.map_cons, List.map_cons, List.intercalate_cons_cons, List.filter_append,
        List.filter_append, htoken, List.filter_cons_of_pos (by rw [hblank, Bool.not_false]),
        List.filter_nil, ← List.map_cons, ih hrest]

/-- **Which tokens can be read.** A list of tokens is read from some text exactly if its numbers are
literals and each of them that has a minus in front comes first or directly after an operator or an
opening parenthesis. Such tokens are read from what they are typed as, with a character that is no
blank and means nothing between any two of them. -/
theorem exists_scan_eq_iff (tokens : List Token) :
    ((∃ text, scan text = tokens) ↔ IsReadable tokens) ∧
      (IsReadable tokens → ∀ c, isBlank c = false → isMeaningful c = false →
        scan (List.intercalate [c] (tokens.map Token.text)) = tokens) := by
  have hread : IsReadable tokens → ∀ c, isBlank c = false → isMeaningful c = false →
      scan (List.intercalate [c] (tokens.map Token.text)) = tokens := by
    intro h c hblank hmeaningless
    rw [scan, filter_intercalate hblank h]
    exact scanFrom_intercalate hmeaningless h fun _ _ _ ↦ rfl
  refine ⟨⟨?_, fun h ↦ ⟨_, hread h '%' (by decide) (by decide)⟩⟩, hread⟩
  rintro ⟨text, rfl⟩
  exact (isReadable_scanFrom true _).1

/-- All the ways in which a minus is read: as an operator before a number, before another minus,
before a parenthesis and at the end, and as a sign after an operator and after a parenthesis. -/
theorem scan_minus_everywhere :
    let minus : Token := .operator .subtract
    let tokens : List Token := [minus, .number ['5'], minus, minus, .openParen, .number ['-', '.'],
      .closeParen, minus, .number ['-', '1', '.', '2', '.'], .number ['3'], minus]
    IsReadable tokens ∧ isBlank '%' = false ∧ isMeaningful '%' = false ∧
      scan ['-', '%', '5', '%', '-', '%', '-', '%', '(', '%', '-', '.', '%', ')', '%', '-', '%',
        '-', '1', '.', '2', '.', '%', '3', '%', '-'] = tokens := by
  intro minus tokens
  have hreadable : IsReadable tokens :=
    (exists_scan_eq_iff tokens).1.mp ⟨['-', '%', '5', '-', '-', '(', '-', '.', ')', '-', '-', '1',
      '.', '2', '.', '%', '3', '-'], by decide +kernel⟩
  exact ⟨hreadable, by decide, by decide,
    (exists_scan_eq_iff tokens).2 hreadable '%' (by decide) (by decide)⟩

end PocketCalculator
