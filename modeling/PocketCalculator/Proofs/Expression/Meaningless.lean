import PocketCalculator.Proofs.Expression.Readable

/-!
# Characters without a meaning

The tokens of a text are made of those of its characters that mean something. So the others should
make no difference, and for blanks this is so: they are taken out before the text is read. The
tokens of a text of nothing else can be written with a blank between any two of them, and are read
back (`scan_lossless`).

Any other character without a meaning is passed over only when reading gets to it, and by then it
has ended the number before it: `1,234` is read as the two numbers `1` and `234`. In the same way it
parts a minus from the number of which it is the sign, and the minus is an operator.

## Inside a number

No other place makes a difference (`scan_filter_eq_iff`). After a character that means something,
reading goes on with the next one, unless the two belong to one number; and whether they do is told
by the last characters before and the first one after. The induction is on the ways of going on that
reading has. Each of them takes a piece of the text that is one token, and a character that
interrupts the text stands either directly after the piece or in what is left
(`interruptedFrom_append_iff`).
-/

namespace PocketCalculator

/-- The characters that mean something. -/
def meaningfulChars : Text :=
  ['0', '1', '2', '3', '4', '5', '6', '7', '8', '9', '.', '+', '-', '*', '/', '(', ')']

theorem isMeaningful_eq : isMeaningful = meaningfulChars.contains := by
  funext c
  rw [Bool.eq_iff_iff, List.contains_iff_mem]
  constructor
  · intro h
    rw [isMeaningful, Bool.or_eq_true_iff] at h
    rcases h with hnumeral | htoken
    · rcases Bool.or_eq_true_iff.mp hnumeral with hdigit | hpoint
      · have hrange : 48 ≤ c.toNat ∧ c.toNat ≤ 57 := Char.isDigit_iff_toNat.mp hdigit
        have hdigits : ∀ n < 10, Char.ofNat (48 + n) ∈ meaningfulChars := by decide
        have hmem := hdigits (c.toNat - 48) (by omega)
        rwa [Nat.add_sub_of_le hrange.1, Char.ofNat_toNat] at hmem
      · rw [of_decide_eq_true hpoint]
        decide
    · obtain ⟨token, htoken⟩ := Option.isSome_iff_exists.mp htoken
      have htext := Token.text_of_ofChar? htoken
      have hc : c ∈ token.text := htext ▸ List.mem_singleton_self c
      cases token with
      | number text => exact absurd rfl (Token.ne_number_of_ofChar? htoken text)
      | operator op =>
        rw [List.mem_singleton.mp hc]
        cases op <;> decide
      | openParen =>
        rw [List.mem_singleton.mp hc]
        decide
      | closeParen =>
        rw [List.mem_singleton.mp hc]
        decide
  · exact fun h ↦ List.all_eq_true.mp (rfl : meaningfulChars.all isMeaningful = true) c h

/-! ## Blanks between tokens -/

theorem not_isBlank_of_isMeaningful {c : Char} (h : isMeaningful c = true) : isBlank c = false := by
  rw [← Bool.not_eq_true]
  intro hblank
  rw [isMeaningful_of_isBlank hblank] at h
  exact absurd h Bool.false_ne_true

theorem filter_isMeaningful_eq {text : Text}
    (h : ∀ c ∈ text, isMeaningful c = true ∨ isBlank c = true) :
    text.filter isMeaningful = text.filter (!isBlank ·) := by
  refine List.filter_congr fun c hc ↦ ?_
  rcases h c hc with hmeaningful | hblank
  · rw [hmeaningful, not_isBlank_of_isMeaningful hmeaningful, Bool.not_false]
  · rw [isMeaningful_of_isBlank hblank, hblank, Bool.not_true]

theorem filter_isMeaningful_filter (text : Text) :
    (text.filter (!isBlank ·)).filter isMeaningful = text.filter isMeaningful := by
  rw [List.filter_filter]
  refine List.filter_congr fun c _ ↦ ?_
  cases hmeaningful : isMeaningful c with
  | false => rfl
  | true => rw [not_isBlank_of_isMeaningful hmeaningful, Bool.not_false, Bool.true_and]

theorem scan_filter_isMeaningful (text : Text) :
    scan (text.filter isMeaningful) = scanFrom true (text.filter isMeaningful) := by
  rw [scan, ← filter_isMeaningful_eq fun c hc ↦ .inl (List.of_mem_filter hc), List.filter_filter]
  simp only [Bool.and_self]

theorem filter_intercalate_of_isBlank {c : Char} (hc : isBlank c = true) (texts : List Text) :
    (List.intercalate [c] texts).filter (!isBlank ·) = texts.flatten.filter (!isBlank ·) := by
  induction texts with
  | nil => rfl
  | cons text rest ih =>
    rw [List.flatten_cons, List.filter_append]
    rcases rest with _ | ⟨next, rest⟩
    · rw [List.intercalate_singleton, List.flatten_nil, List.filter_nil, List.append_nil]
    · have hskip : [c].filter (!isBlank ·) = [] := by simp [hc]
      rw [List.intercalate_cons_cons, List.filter_append, List.filter_append, hskip, ih,
        List.append_nil]

theorem scan_intercalate_of_isBlank {c : Char} (hc : isBlank c = true) (tokens : List Token) :
    scan (List.intercalate [c] (tokens.map Token.text)) = scan (tokens.flatMap Token.text) := by
  rw [scan, filter_intercalate_of_isBlank hc, ← List.flatMap_def]
  rfl

/-- **Reading is lossless.** The tokens of a text, written one after another, are the text without
the characters that mean nothing. If these are all blanks, the tokens are read back from what they
are typed as with a blank between any two of them. -/
theorem scan_lossless (text : Text) :
    (scan text).flatMap Token.text = text.filter meaningfulChars.contains ∧
      ((∀ c ∈ text, c ∈ meaningfulChars ∨ isBlank c = true) →
        ∀ blank, isBlank blank = true →
          scan (List.intercalate [blank] ((scan text).map Token.text)) = scan text) := by
  rw [← isMeaningful_eq]
  refine ⟨flatMap_text_scan text, fun h blank hblank ↦ ?_⟩
  have hmeaningful : ∀ c ∈ text, isMeaningful c = true ∨ isBlank c = true := by
    intro c hc
    rw [isMeaningful_eq, List.contains_iff_mem]
    exact h c hc
  rw [scan_intercalate_of_isBlank hblank, flatMap_text_scan, scan_filter_isMeaningful,
    filter_isMeaningful_eq hmeaningful]
  rfl

/-- Blanks inside a number, a minus that is a sign and one that is an operator: `1 2*-(- .5)`. -/
theorem scan_with_blanks :
    let text : Text := ['1', ' ', '2', '*', '-', '(', '-', ' ', '.', '5', ')']
    let tokens : List Token := [.number ['1', '2'], .operator .multiply, .operator .subtract,
      .openParen, .number ['-', '.', '5'], .closeParen]
    scan text = tokens ∧ (∀ c ∈ text, c ∈ meaningfulChars ∨ isBlank c = true) ∧
      isBlank ' ' = true ∧
      tokens.flatMap Token.text = ['1', '2', '*', '-', '(', '-', '.', '5', ')'] ∧
      scan ['1', '2', ' ', '*', ' ', '-', ' ', '(', ' ', '-', '.', '5', ' ', ')'] = tokens := by
  intro text tokens
  have hscan : scan text = tokens := by decide +kernel
  have hchars : ∀ c ∈ text, c ∈ meaningfulChars ∨ isBlank c = true := by
    have hall : text.all (fun c ↦ meaningfulChars.contains c || isBlank c) = true := by
      decide +kernel
    intro c hc
    rw [← List.contains_iff_mem, ← Bool.or_eq_true]
    exact List.all_eq_true.mp hall c hc
  obtain ⟨htext, hagain⟩ := scan_lossless text
  have hspaced := hagain hchars ' ' (by decide)
  rw [hscan] at htext hspaced
  exact ⟨hscan, hchars, by decide, htext, hspaced⟩

/-! ## Characters inside a number -/

/-- Whether an operand must come after a character that means something. -/
def awaitsOperandAfter (c : Char) : Bool :=
  Operator.isSymbol c || c = '('

/-- Whether the last character of a text is part of a number that may go on: it is a digit or a
point, or a minus before which no operand ends. Before the whole text the flag tells whether an
operand must come. -/
def endsInNumber (operandNext : Bool) (text : Text) : Bool :=
  match text.reverse with
  | [] => false
  | last :: before =>
    isNumeralChar last ||
      (last = '-' && (before.head?.map awaitsOperandAfter).getD operandNext)

/-- Whether a text starts with a digit or a point. -/
def startsInNumber (text : Text) : Bool :=
  text.head?.any isNumeralChar

/-- Whether a character without a meaning stands inside a number: without all such characters, what
comes before it would end in a number, and what comes after it would go on with the number. -/
def InterruptedFrom (operandNext : Bool) (text : Text) : Prop :=
  ∃ before c after, text = before ++ c :: after ∧ isMeaningful c = false ∧
    endsInNumber operandNext (before.filter isMeaningful) = true ∧
    startsInNumber (after.filter isMeaningful) = true

/-- Whether a character that is no blank and means nothing stands inside a number. Blanks are not
looked at. -/
def IsInterrupted (text : Text) : Prop :=
  InterruptedFrom true (text.filter (!isBlank ·))

theorem endsInNumber_singleton (operandNext : Bool) (c : Char) :
    endsInNumber operandNext [c] = (isNumeralChar c || (c = '-' && operandNext)) := rfl

/-- Whether a text ends in a number is told by its last two characters, so a character in front
matters only for whether an operand must come after it. -/
theorem endsInNumber_cons (operandNext : Bool) (c : Char) {text : Text} (h : text ≠ []) :
    endsInNumber operandNext (c :: text) = endsInNumber (awaitsOperandAfter c) text := by
  obtain ⟨init, last, rfl⟩ := List.eq_nil_or_concat' text |>.resolve_left h
  have hhead : ((init.reverse ++ [c]).head?.map awaitsOperandAfter).getD operandNext =
      (init.reverse.head?.map awaitsOperandAfter).getD (awaitsOperandAfter c) := by
    cases init.reverse <;> rfl
  rw [endsInNumber, endsInNumber, List.reverse_cons, List.reverse_append, List.reverse_singleton,
    List.singleton_append, List.cons_append]
  simp only [hhead]

theorem awaitsOperandAfter_of_isNumeralChar {c : Char} (h : isNumeralChar c = true) :
    awaitsOperandAfter c = false := by
  rw [awaitsOperandAfter, Bool.or_eq_false_iff, ← Bool.not_eq_true, Operator.isSymbol_iff]
  constructor
  · rintro ⟨op, rfl⟩
    rw [isNumeralChar_symbol] at h
    exact Bool.noConfusion h
  · rw [decide_eq_false_iff_not]
    rintro rfl
    exact absurd h (by decide)

theorem awaitsOperandAfter_of_ofChar? {c : Char} {token : Token}
    (h : Token.ofChar? c = some token) : awaitsOperandAfter c = token.awaitsOperand := by
  have htext := Token.text_of_ofChar? h
  cases token with
  | number text => exact absurd rfl (Token.ne_number_of_ofChar? h text)
  | operator op =>
    obtain rfl : op.symbol = c := List.singleton_inj.mp htext
    rw [awaitsOperandAfter, Operator.isSymbol_symbol]
    rfl
  | openParen =>
    obtain rfl : '(' = c := List.singleton_inj.mp htext
    rfl
  | closeParen =>
    obtain rfl : ')' = c := List.singleton_inj.mp htext
    rfl

section

variable {digits : Text} (hdigits : ∀ c ∈ digits, isNumeralChar c = true) (hne : digits ≠ [])

include hdigits hne

theorem endsInNumber_run (operandNext : Bool) : endsInNumber operandNext digits = true := by
  obtain ⟨init, last, rfl⟩ := List.eq_nil_or_concat' digits |>.resolve_left hne
  have hlast : isNumeralChar last = true := hdigits last (by simp)
  rw [endsInNumber, List.reverse_append, List.reverse_singleton, List.singleton_append]
  simp only [hlast, Bool.true_or]

theorem endsInNumber_run_append (operandNext : Bool) {text : Text} (h : text ≠ []) :
    endsInNumber operandNext (digits ++ text) = endsInNumber false text := by
  induction digits generalizing operandNext with
  | nil => exact absurd rfl hne
  | cons c digits ih =>
    obtain ⟨hc, hdigits⟩ := List.forall_mem_cons.mp hdigits
    have hrest : digits ++ text ≠ [] := List.append_ne_nil_of_right_ne_nil digits h
    rw [List.cons_append, endsInNumber_cons _ _ hrest, awaitsOperandAfter_of_isNumeralChar hc]
    rcases digits with _ | ⟨d, digits⟩
    · rfl
    · exact ih hdigits (List.cons_ne_nil d digits) false

end

/-! ## Interruptions -/

theorem takeWhile_eq_nil_iff {text : Text} :
    text.takeWhile isNumeralChar = [] ↔ startsInNumber text = false := by
  cases text with
  | nil => exact iff_of_true rfl rfl
  | cons c rest =>
    rw [startsInNumber, List.head?_cons, Option.any_some]
    cases hc : isNumeralChar c with
    | false => exact iff_of_true (List.takeWhile_cons_of_neg (by simp [hc])) rfl
    | true =>
      rw [List.takeWhile_cons_of_pos hc]
      exact iff_of_false (List.cons_ne_nil _ _) (Bool.noConfusion)

/-- **Interruptions.** A character that interrupts a text stands directly after its first piece,
which ends in a number, or in what is left after that. -/
theorem interruptedFrom_append_iff {operandNext operandAfter : Bool} {piece rest : Text}
    (hpiece : ∀ c ∈ piece, isMeaningful c = true)
    (hafter : ∀ {text : Text}, text ≠ [] →
      endsInNumber operandNext (piece ++ text) = endsInNumber operandAfter text)
    (hrest : endsInNumber operandNext piece = true → startsInNumber rest = false) :
    InterruptedFrom operandNext (piece ++ rest) ↔
      endsInNumber operandNext piece = true ∧
          startsInNumber (rest.filter isMeaningful) = true ∨
        InterruptedFrom operandAfter rest := by
  have hfilter : piece.filter isMeaningful = piece := List.filter_eq_self.mpr hpiece
  constructor
  · rintro ⟨before, c, after, heq, hc, hends, hstarts⟩
    obtain ⟨before, rfl, rfl⟩ : ∃ between, before = piece ++ between ∧
        rest = between ++ c :: after := by
      rcases List.append_eq_append_iff.mp heq with ⟨between, hbefore, hrest⟩ | ⟨tail, hcut, hrest⟩
      · exact ⟨between, hbefore, hrest⟩
      · rcases tail with _ | ⟨d, tail⟩
        · exact ⟨[], by rw [hcut, List.append_nil, List.append_nil], hrest.symm⟩
        · -- every character of the piece means something
          obtain ⟨rfl, -⟩ := List.cons_eq_cons.mp hrest
          have hmem : c ∈ piece := hcut ▸ List.mem_append_right before List.mem_cons_self
          rw [hpiece c hmem] at hc
          exact Bool.noConfusion hc
    rw [List.filter_append, hfilter] at hends
    by_cases hempty : before.filter isMeaningful = []
    · rw [hempty, List.append_nil] at hends
      refine .inl ⟨hends, ?_⟩
      rwa [List.filter_append, hempty, List.nil_append,
        List.filter_cons_of_neg (by simp [hc])]
    · rw [hafter hempty] at hends
      exact .inr ⟨before, c, after, rfl, hc, hends, hstarts⟩
  · rintro (⟨hends, hstarts⟩ | ⟨before, c, after, rfl, hc, hends, hstarts⟩)
    · rcases rest with _ | ⟨c, after⟩
      · exact Bool.noConfusion hstarts
      · -- what starts in a number only without its first character starts with that character
        have hc : isMeaningful c = false := by
          rw [← Bool.not_eq_true]
          intro hmeaningful
          rw [List.filter_cons_of_pos hmeaningful] at hstarts
          have hnot : startsInNumber (c :: after) = true := hstarts
          rw [hrest hends] at hnot
          exact Bool.noConfusion hnot
        rw [List.filter_cons_of_neg (by simp [hc])] at hstarts
        exact ⟨piece, c, after, rfl, hc, by rwa [hfilter], hstarts⟩
    · have hne : before.filter isMeaningful ≠ [] := by
        intro hempty
        rw [hempty] at hends
        exact Bool.noConfusion hends
      refine ⟨piece ++ before, c, after, (List.append_assoc ..).symm, hc, ?_, hstarts⟩
      rwa [List.filter_append, hfilter, hafter hne]

theorem not_interruptedFrom_nil (operandNext : Bool) : ¬ InterruptedFrom operandNext [] := by
  rintro ⟨before, c, after, heq, -⟩
  exact List.append_ne_nil_of_right_ne_nil before (List.cons_ne_nil c after) heq.symm

theorem interruptedFrom_cons_iff {operandNext : Bool} {c : Char} (hc : isMeaningful c = false)
    (rest : Text) : InterruptedFrom operandNext (c :: rest) ↔ InterruptedFrom operandNext rest := by
  have hneg : ¬ isMeaningful c = true := by simp [hc]
  constructor
  · rintro ⟨_ | ⟨d, before⟩, u, after, heq, hu, hends, hstarts⟩
    · exact Bool.noConfusion hends
    · obtain ⟨rfl, rfl⟩ := List.cons_eq_cons.mp heq
      rw [List.filter_cons_of_neg hneg] at hends
      exact ⟨before, u, after, rfl, hu, hends, hstarts⟩
  · rintro ⟨before, u, after, rfl, hu, hends, hstarts⟩
    refine ⟨c :: before, u, after, rfl, hu, ?_, hstarts⟩
    rwa [List.filter_cons_of_neg hneg]

/-! ## Reading without them -/

section

variable {operandNext : Bool} {c : Char} {digits : Text}
  (hc : isNumeralChar c = true ∨ c = '-' ∧ operandNext = true ∧ digits ≠ [])
  (hdigits : ∀ d ∈ digits, isNumeralChar d = true)

include hc hdigits

theorem scanFrom_piece (rest : Text) :
    scanFrom operandNext (c :: (digits ++ rest)) =
      .number (c :: (digits ++ rest.takeWhile isNumeralChar)) ::
        scanFrom false (rest.dropWhile isNumeralChar) := by
  have htake : (digits ++ rest).takeWhile isNumeralChar =
      digits ++ rest.takeWhile isNumeralChar := List.takeWhile_append_of_pos hdigits
  have hdrop : (digits ++ rest).dropWhile isNumeralChar = rest.dropWhile isNumeralChar :=
    List.dropWhile_append_of_pos hdigits
  rcases hc with hnumeral | ⟨rfl, rfl, hne⟩
  · rw [scanFrom_number hnumeral, htake, hdrop]
  · have hsome : (digits ++ rest).takeWhile isNumeralChar ≠ [] := by
      rw [htake]
      exact List.append_ne_nil_of_left_ne_nil hne _
    rw [scanFrom_sign hsome, htake, hdrop]

theorem endsInNumber_piece : endsInNumber operandNext (c :: digits) = true := by
  rcases digits with _ | ⟨d, digits⟩
  · rcases hc with hnumeral | ⟨-, -, hne⟩
    · rw [endsInNumber_singleton, hnumeral, Bool.true_or]
    · exact absurd rfl hne
  · rw [endsInNumber_cons _ _ (List.cons_ne_nil d digits)]
    exact endsInNumber_run hdigits (List.cons_ne_nil d digits) _

theorem endsInNumber_piece_append {text : Text} (h : text ≠ []) :
    endsInNumber operandNext (c :: digits ++ text) = endsInNumber false text := by
  rw [List.cons_append, endsInNumber_cons _ _ (List.append_ne_nil_of_right_ne_nil digits h)]
  rcases digits with _ | ⟨d, digits⟩
  · rcases hc with hnumeral | ⟨-, -, hne⟩
    · rw [awaitsOperandAfter_of_isNumeralChar hnumeral, List.nil_append]
    · exact absurd rfl hne
  · exact endsInNumber_run_append hdigits (List.cons_ne_nil d digits) _ h

theorem isMeaningful_of_mem_piece : ∀ d ∈ c :: digits, isMeaningful d = true := by
  refine List.forall_mem_cons.mpr ⟨?_, fun d hd ↦ isMeaningful_of_isNumeralChar (hdigits d hd)⟩
  rcases hc with hnumeral | ⟨rfl, -, -⟩
  · exact isMeaningful_of_isNumeralChar hnumeral
  · exact isMeaningful_symbol .subtract

/-- A number at the start of a text is kept exactly if no more of it follows what interrupts it. -/
theorem scanFrom_filter_piece_eq_iff {after : Text} (hafter : after.takeWhile isNumeralChar = [])
    (ih : scanFrom false (after.filter isMeaningful) = scanFrom false after ↔
      ¬ InterruptedFrom false after) :
    scanFrom operandNext ((c :: digits ++ after).filter isMeaningful) =
        .number (c :: digits) :: scanFrom false after ↔
      ¬ InterruptedFrom operandNext (c :: digits ++ after) := by
  have hpiece := isMeaningful_of_mem_piece hc hdigits
  have hends := endsInNumber_piece hc hdigits
  rw [interruptedFrom_append_iff hpiece (endsInNumber_piece_append hc hdigits)
    fun _ ↦ takeWhile_eq_nil_iff.mp hafter, List.filter_append, List.filter_eq_self.mpr hpiece,
    List.cons_append, scanFrom_piece hc hdigits, and_iff_right hends, not_or, ← ih,
    Bool.not_eq_true, ← takeWhile_eq_nil_iff, List.cons.injEq, Token.number.injEq,
    List.cons_inj_right, List.append_right_eq_self]
  refine and_congr_right fun hnone ↦ ?_
  have hsplit : (after.filter isMeaningful).takeWhile isNumeralChar ++
      (after.filter isMeaningful).dropWhile isNumeralChar = after.filter isMeaningful :=
    List.takeWhile_append_dropWhile
  rw [hnone, List.nil_append] at hsplit
  rw [hsplit]

end

/-- Reading from any place on. One case for each way of going on. -/
theorem scanFrom_filter_eq_iff (operandNext : Bool) (text : Text) :
    scanFrom operandNext (text.filter isMeaningful) = scanFrom operandNext text ↔
      ¬ InterruptedFrom operandNext text := by
  fun_induction scanFrom operandNext text with
  | case1 operandNext => exact iff_of_true (scanFrom_nil _) (not_interruptedFrom_nil _)
  | case2 operandNext c rest digits afterDigits hc ih =>
    have htext : c :: rest = c :: digits ++ afterDigits :=
      congrArg (c :: ·) List.takeWhile_append_dropWhile.symm
    rw [htext]
    exact scanFrom_filter_piece_eq_iff (.inl hc) (fun d hd ↦ List.mem_takeWhile_imp hd)
      (takeWhile_dropWhile_eq_nil _ rest) ih
  | case3 operandNext c rest digits afterDigits hc hsign ih =>
    simp only [Bool.and_eq_true, decide_eq_true_eq, Bool.not_eq_true', List.isEmpty_eq_false_iff]
      at hsign
    have htext : c :: rest = c :: digits ++ afterDigits :=
      congrArg (c :: ·) List.takeWhile_append_dropWhile.symm
    rw [htext]
    exact scanFrom_filter_piece_eq_iff (.inr ⟨hsign.1.1, hsign.1.2, hsign.2⟩)
      (fun d hd ↦ List.mem_takeWhile_imp hd) (takeWhile_dropWhile_eq_nil _ rest) ih
  | case4 operandNext c rest digits hc hsign token htoken ih =>
    have hnumber : isNumeralChar c = false := Bool.not_eq_true _ ▸ hc
    have hmeaningful : isMeaningful c = true := by
      rw [isMeaningful, htoken]
      exact Bool.or_true _
    have hends : endsInNumber operandNext [c] = (c = '-' && operandNext) := by
      rw [endsInNumber_singleton, hnumber, Bool.false_or]
    -- a minus that is an operator, since no digit follows at once
    have hbare : c = '-' → operandNext = true → rest.takeWhile isNumeralChar = [] := by
      rintro rfl rfl
      by_contra hdigits
      have hempty : digits.isEmpty = false := List.isEmpty_eq_false_iff.mpr hdigits
      exact hsign (by rw [hempty]; rfl)
    have hrest : endsInNumber operandNext [c] = true → startsInNumber rest = false := by
      rw [hends, Bool.and_eq_true, decide_eq_true_eq]
      exact fun h ↦ takeWhile_eq_nil_iff.mp (hbare h.1 h.2)
    have hinterrupted := interruptedFrom_append_iff (List.forall_mem_singleton.mpr hmeaningful)
      (endsInNumber_cons operandNext c) hrest
    rw [List.singleton_append, hends, Bool.and_eq_true, decide_eq_true_eq,
      awaitsOperandAfter_of_ofChar? htoken] at hinterrupted
    rw [List.filter_cons_of_pos hmeaningful, hinterrupted]
    by_cases hsigned : (c = '-' ∧ operandNext = true) ∧
        startsInNumber (rest.filter isMeaningful) = true
    · -- with the digit after it, the minus is a sign
      refine iff_of_false (fun heq ↦ ?_) fun h ↦ h (.inl hsigned)
      obtain ⟨⟨rfl, rfl⟩, hstarts⟩ := hsigned
      have hdigits : (rest.filter isMeaningful).takeWhile isNumeralChar ≠ [] := by
        rw [Ne, takeWhile_eq_nil_iff, hstarts]
        exact Bool.noConfusion
      rw [scanFrom_sign hdigits] at heq
      exact Token.ne_number_of_ofChar? htoken _ (List.cons_eq_cons.mp heq).1.symm
    · have hchar : scanFrom operandNext (c :: rest.filter isMeaningful) =
          token :: scanFrom token.awaitsOperand (rest.filter isMeaningful) :=
        scanFrom_char hnumber htoken fun hminus hoperand ↦ takeWhile_eq_nil_iff.mpr <|
          Bool.not_eq_true _ ▸ fun hstarts ↦ hsigned ⟨⟨hminus, hoperand⟩, hstarts⟩
      rw [hchar, List.cons_inj_right, ih, or_iff_right hsigned]
  | case5 operandNext c rest digits hc hsign htoken ih =>
    have hmeaningless : isMeaningful c = false := by
      rw [isMeaningful, htoken, Option.isSome_none, Bool.or_false, Bool.eq_false_iff]
      exact hc
    rw [List.filter_cons_of_neg (by simp [hmeaningless]), ih,
      interruptedFrom_cons_iff hmeaningless]

/-- **Characters without a meaning.** A text is read as if none of them were there exactly if none
that is no blank stands inside a number. -/
theorem scan_filter_eq_iff (text : Text) :
    scan (text.filter meaningfulChars.contains) = scan text ↔ ¬ IsInterrupted text := by
  rw [← isMeaningful_eq, scan_filter_isMeaningful, ← filter_isMeaningful_filter]
  exact scanFrom_filter_eq_iff true _

/-- A comma between digits makes two numbers of one: `1,234` is read as `1` and `234`, and its value
is 1. -/
theorem exists_text_that_is_interrupted :
    scan (['1', ',', '2', '3', '4'].filter meaningfulChars.contains) ≠
        scan ['1', ',', '2', '3', '4'] ∧
      scan ['1', ',', '2', '3', '4'] = [.number ['1'], .number ['2', '3', '4']] ∧
      roundedValue? 12 ['1', ',', '2', '3', '4'] = some 1 ∧
      roundedValue? 12 (['1', ',', '2', '3', '4'].filter meaningfulChars.contains) =
        some 1234 := by
  refine ⟨?_, ?_, ?_, ?_⟩ <;> decide +kernel

end PocketCalculator
