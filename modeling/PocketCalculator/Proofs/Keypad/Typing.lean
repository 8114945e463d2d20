import Mathlib.Data.List.Induction
import PocketCalculator.Keypad.Key
import PocketCalculator.Proofs.Keypad.WellFormed

/-!
# Typing an expression

The keys that type a character do not always append it: an operator may take the place of another,
a point may bring a zero with it or be left out. None of this happens while something is typed that
can be typed from left to right, unless it starts with an operator that is no minus
(`exists_press_eq`). So such a text is typed by the keys of its characters, one after another
(`exists_pressAll_eq`).
-/

namespace PocketCalculator

open Place
open Binary64 (signText)

/-! ## The keys of characters -/

/-- A single character that is no equals sign is no button, but the key that types it. -/
theorem Key.ofLabel?_singleton {c : Char} (hc : c ≠ '=') : Key.ofLabel? [c] = Key.ofChar? c := by
  have hlabel : labelledKeys.lookup [c] = none := by
    rw [Option.eq_none_iff_forall_ne_some]
    intro key hkey
    have hmem := mem_of_lookup hkey
    simp [labelledKeys, hc] at hmem
  have hname : namedKeys.lookup [c] = none := by
    rw [Option.eq_none_iff_forall_ne_some]
    intro key hkey
    have hmem := mem_of_lookup hkey
    simp [namedKeys] at hmem
  rw [ofLabel?, hlabel]
  dsimp only
  rw [ofName?, hname]

theorem Key.ofLabel?_digit {c : Char} (hc : c.isDigit = true) :
    Key.ofLabel? [c] = some (.digit c) := by
  have hequals : c ≠ '=' := fun heq ↦ absurd (heq ▸ hc) (by decide)
  rw [ofLabel?_singleton hequals, ofChar?_eq_digit_iff]
  exact ⟨rfl, hc⟩

theorem Key.ofLabel?_symbol (op : Operator) : Key.ofLabel? [op.symbol] = some (.operator op) := by
  cases op <;> rfl

/-! ## One character -/

variable {text : Text} {p q : Place}

theorem dot_notMem_trailingPartialNumber (h : start.after? text = some whole) :
    '.' ∉ trailingPartialNumber text := by
  obtain ⟨rest, run, r, rfl, hrest, hr, hrun⟩ := exists_openRun (.inl rfl) h
  obtain ⟨hne, hdigits⟩ : run ≠ [] ∧ ∀ c ∈ run, c.isDigit = true := by
    cases hrun with
    | whole hne hdigits => exact ⟨hne, hdigits⟩
  have hpositional := hrun.isPositional hne
  obtain ⟨before, negative, s, -, -, -, hsplit⟩ := splitTail?_openRun (fun _ ↦ id) hrest hr
    fun negative ↦ isPartialNumber_of_isCompleteNumber (hpositional.isCompleteNumber_eq negative)
  rw [trailingPartialNumber, hsplit]
  intro hdot
  rcases List.mem_append.mp hdot with hsign | hmem
  · cases negative <;> exact absurd hsign (by decide)
  · exact absurd (hdigits '.' hmem) (by decide)

theorem typeDot_of_whole (h : start.after? text = some whole) :
    Keypad.typeDot text = text ++ ['.'] := by
  have hstart : ¬ Keypad.startsNumber text = true := by
    rw [startsNumber_iff h]
    rintro (hplace | hplace) <;> cases hplace
  rw [Keypad.typeDot, if_neg (dot_notMem_trailingPartialNumber h), if_neg hstart]

/-- An operator that does not follow another is appended, at the start only a minus. -/
theorem typeOperator_of_ne_symbol (h : start.after? text = some p) (hp : p ≠ symbol) (op : Operator)
    (hfirst : text = [] → op = .subtract) :
    Keypad.typeOperator text op = text ++ [op.symbol] := by
  rcases Keypad.typeOperator_cases text op with
    ⟨before, c, rfl, hsymbol, -⟩ | ⟨hnil, hop, -⟩ | ⟨-, -, heq⟩
  · obtain ⟨q, -, hc⟩ := after?_concat_eq_some.mp h
    exact absurd ((isSymbol_iff_of_next? hc).mp hsymbol) hp
  · exact absurd (hfirst hnil) hop
  · exact heq

/-- Whether a character may be the first one that is typed: it is a digit or a minus. -/
def IsFirst (c : Char) : Prop :=
  c.isDigit = true ∨ c = '-'

/-- **One character** that may be typed next is appended by its key. -/
theorem exists_press_eq (places : ℕ) (result : Text) (h : start.after? text = some p) {c : Char}
    (hc : p.next? c = some q) (hfirst : text = [] → IsFirst c) :
    ∃ key, Key.ofLabel? [c] = some key ∧
      Keypad.press places ⟨text, result⟩ key = ⟨text ++ [c], result⟩ := by
  rcases next?_eq_some hc with ⟨hdigit, -⟩ | ⟨rfl, rfl, -⟩ | ⟨⟨op, rfl⟩, hp, -⟩
  · exact ⟨.digit c, Key.ofLabel?_digit hdigit, rfl⟩
  · refine ⟨.dot, rfl, ?_⟩
    rw [Keypad.press, typeDot_of_whole h]
  · refine ⟨.operator op, Key.ofLabel?_symbol op, ?_⟩
    rw [Keypad.press, typeOperator_of_ne_symbol h hp op]
    intro hnil
    rcases hfirst hnil with hdigit | hminus
    · rw [not_isDigit_symbol] at hdigit
      exact absurd hdigit Bool.false_ne_true
    · cases op with
      | subtract => rfl
      | add | multiply | divide => exact absurd hminus (by decide)

/-! ## Any characters -/

/-- **Typing.** A text that can be typed from left to right, and that starts with a digit or a
minus, is typed by the keys of its characters, one after another. -/
theorem exists_pressAll_eq (places : ℕ) (result : Text) (h : start.after? text = some p)
    (hfirst : ∀ c, text.head? = some c → IsFirst c) :
    ∃ keys : List Key, text.map (fun c ↦ Key.ofLabel? [c]) = keys.map some ∧
      Keypad.pressAll places ⟨[], result⟩ keys = ⟨text, result⟩ := by
  induction text using List.reverseRecOn generalizing p with
  | nil => exact ⟨[], rfl, rfl⟩
  | append_singleton text c ih =>
    obtain ⟨q, hq, hc⟩ := after?_concat_eq_some.mp h
    have hfirst' : ∀ d, text.head? = some d → IsFirst d := by
      intro d hd
      refine hfirst d ?_
      rw [List.head?_append, hd]
      rfl
    obtain ⟨keys, hkeys, hpressed⟩ := ih hq hfirst'
    obtain ⟨key, hkey, hpress⟩ := exists_press_eq places result hq hc fun hnil ↦
      hfirst c (by rw [hnil]; rfl)
    refine ⟨keys ++ [key], ?_, ?_⟩
    · rw [List.map_append, List.map_append, hkeys, List.map_singleton, List.map_singleton, hkey]
    · rw [Keypad.pressAll_append, hpressed, Keypad.pressAll_cons, hpress, Keypad.pressAll_nil]

/-! ## Chains -/

/-- A chain of numbers in positional notation with operators between them, and perhaps a minus in
front. -/
inductive IsChain : Text → Prop
  | number (negative : Bool) {number : Text} (h : IsPositional number) :
      IsChain (signText negative ++ number)
  | operator {before number : Text} (hbefore : IsChain before) (op : Operator)
      (h : IsPositional number) : IsChain (before ++ op.symbol :: number)

theorem not_isBetween_of_isPositional {before number : Text} (h : IsPositional number)
    (hafter : start.after? (before ++ number) = some p) : ¬ p.IsBetween := by
  intro hp
  have hne := h.ne_nil
  rcases eq_nil_or_symbol hafter hp with hnil | ⟨rest, op, -, heq, -⟩
  · exact hne (List.append_eq_nil_iff.mp hnil).2
  · have hlast := congrArg List.getLast? heq
    rw [List.getLast?_append_of_ne_nil _ hne, List.getLast?_concat] at hlast
    have hnumeral := h.isNumeralChar_of_mem op.symbol (List.mem_of_getLast? hlast)
    rw [isNumeralChar_symbol] at hnumeral
    exact absurd hnumeral Bool.false_ne_true

theorem IsChain.exists_after? (h : IsChain text) :
    ∃ p, start.after? text = some p ∧ ¬ p.IsBetween := by
  induction h with
  | number negative h =>
    have htakes : start.Takes negative := by
      cases negative with
      | true => exact fun hplace ↦ Place.noConfusion hplace
      | false => exact .inl rfl
    obtain ⟨p, hp⟩ := exists_after?_of_takes htakes h
    exact ⟨p, hp, not_isBetween_of_isPositional h hp⟩
  | @operator before number hbefore op h ih =>
    obtain ⟨q, hq, hbetween⟩ := ih
    have hsymbol : q ≠ symbol := fun heq ↦ hbetween (.inr heq)
    obtain ⟨p, hp⟩ := exists_after?_of_isPositional (p := symbol) (.inr rfl) h
    have hafter : start.after? ((before ++ [op.symbol]) ++ number) = some p :=
      after?_append_eq_some.mpr
        ⟨symbol, after?_concat_eq_some.mpr ⟨q, hq, next?_symbol hsymbol op⟩, hp⟩
    have hnot := not_isBetween_of_isPositional h hafter
    rw [List.append_assoc] at hafter
    exact ⟨p, hafter, hnot⟩

theorem IsChain.ne_nil (h : IsChain text) : text ≠ [] := by
  cases h with
  | number negative h => exact List.append_ne_nil_of_right_ne_nil _ h.ne_nil
  | operator _ op h => exact List.append_ne_nil_of_right_ne_nil _ (List.cons_ne_nil _ _)

theorem IsChain.isFirst (h : IsChain text) : ∀ c, text.head? = some c → IsFirst c := by
  induction h with
  | number negative h =>
    obtain ⟨d, rest, rfl, hd⟩ := h.exists_cons
    intro c hc
    cases negative with
    | true => exact .inr (Option.some_inj.mp hc).symm
    | false => exact .inl (Option.some_inj.mp hc ▸ hd)
  | operator hbefore op h ih =>
    intro c hc
    rw [List.head?_append_of_ne_nil _ hbefore.ne_nil] at hc
    exact ih c hc

theorem IsChain.isBlank_of_mem (h : IsChain text) : ∀ c ∈ text, isBlank c = false := by
  obtain ⟨p, hp, -⟩ := h.exists_after?
  intro c hc
  rcases (isTyped_of_after? hp).isNumeralChar_or_isSymbol c hc with hnumeral | hsymbol
  · exact isBlank_of_isNumeralChar hnumeral
  · obtain ⟨op, rfl⟩ := Operator.isSymbol_iff.mp hsymbol
    exact isBlank_symbol op

end PocketCalculator
