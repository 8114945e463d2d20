import Mathlib.Data.List.Basic
import Mathlib.Tactic.SplitIfs
import PocketCalculator.Text.Lines
import PocketCalculator.Text.Utf8

/-!
# Lines of bytes and lines of text

Lines are cut from bytes before the bytes are read as text. This file shows that the order makes no
difference. In UTF-8 the bytes below 128 stand for themselves and occur in no other character, so a
line feed or a carriage return among the bytes is one in the text: the lines of an encoded text are
its lines, encoded (`splitLines_encodeUtf8`). And where every line is text, so is the whole
(`exists_eq_encodeUtf8_of_lines`).

Both follow from two equations for the lines of a sequence, one for its first line feed and one for
a sequence without any.
-/

namespace PocketCalculator

/-! ## Cutting at a line feed -/

section
variable {α : Type} [DecidableEq α] {feed ret : α}

/-- What stands before a line feed without the carriage return that may end it. -/
def dropReturn (ret : α) (line : List α) : List α :=
  if line.getLast? = some ret then line.dropLast else line

@[simp] theorem dropReturn_nil : dropReturn ret ([] : List α) = [] := by
  rw [dropReturn, List.dropLast_nil, ite_self]

theorem dropReturn_cons_cons (x y : α) (line : List α) :
    dropReturn ret (x :: y :: line) = x :: dropReturn ret (y :: line) := by
  rw [dropReturn, dropReturn, List.getLast?_cons_cons, List.dropLast_cons_cons]
  split_ifs <;> rfl

theorem dropReturn_concat_self (line : List α) : dropReturn ret (line ++ [ret]) = line := by
  rw [dropReturn, if_pos List.getLast?_concat, List.dropLast_concat]

theorem dropReturn_concat_of_ne {x : α} (hx : x ≠ ret) (line : List α) :
    dropReturn ret (line ++ [x]) = line ++ [x] := by
  rw [dropReturn, List.getLast?_concat, if_neg fun h ↦ hx (Option.some_inj.mp h)]

theorem eq_dropReturn_or (ret : α) (line : List α) :
    line = dropReturn ret line ∨ line = dropReturn ret line ++ [ret] := by
  rcases List.eq_nil_or_concat' line with rfl | ⟨before, x, rfl⟩
  · exact .inl dropReturn_nil.symm
  · by_cases hx : x = ret
    · rw [hx, dropReturn_concat_self]
      exact .inr rfl
    · exact .inl (dropReturn_concat_of_ne hx before).symm

theorem splitLines_of_notMem {line : List α} (hne : line ≠ []) (hfeed : feed ∉ line) :
    splitLines feed ret line = [line] := by
  induction line with
  | nil => exact absurd rfl hne
  | cons x line ih =>
    rw [List.mem_cons, not_or] at hfeed
    have hhead : ¬ (x = ret ∧ line.head? = some feed) := fun h ↦
      hfeed.2 (List.mem_of_head? h.2)
    rw [splitLines, if_neg (Ne.symm hfeed.1), if_neg hhead]
    rcases eq_or_ne line [] with rfl | hline
    · rfl
    · rw [ih hline hfeed.2]

/-- What stands before the first line feed is the first line, without a carriage return at its
end. -/
theorem splitLines_append_cons {line : List α} (hfeed : feed ∉ line) (rest : List α) :
    splitLines feed ret (line ++ feed :: rest) =
      dropReturn ret line :: splitLines feed ret rest := by
  induction line with
  | nil => exact splitLines_feed rest
  | cons x line ih =>
    rw [List.mem_cons, not_or] at hfeed
    rw [List.cons_append, splitLines, if_neg (Ne.symm hfeed.1), ih hfeed.2]
    rcases line with _ | ⟨y, line⟩
    · -- only here does the line feed come next, so that a carriage return is dropped
      rw [List.nil_append, List.head?_cons, dropReturn_nil, dropReturn, List.getLast?_singleton]
      by_cases hx : x = ret
      · rw [if_pos ⟨hx, rfl⟩, if_pos (congrArg some hx), List.dropLast_singleton]
      · rw [if_neg fun h ↦ hx h.1, if_neg fun h ↦ hx (Option.some_inj.mp h)]
    · have hhead : ¬ (x = ret ∧ (y :: line ++ feed :: rest).head? = some feed) := by
        rintro ⟨-, hy⟩
        exact hfeed.2 (Option.some_inj.mp hy ▸ List.mem_cons_self)
      rw [if_neg hhead, dropReturn_cons_cons]

/-- Every sequence is made up of what stands before its line feeds, and of a rest without any. -/
theorem lines_induction {P : List α → Prop} (feed : α) (nil : P [])
    (last : ∀ line, line ≠ [] → feed ∉ line → P line)
    (cons : ∀ line rest, feed ∉ line → P rest → P (line ++ feed :: rest)) (l : List α) : P l := by
  induction hlength : l.length using Nat.strongRecOn generalizing l with
  | ind n ih =>
    by_cases hfeed : feed ∈ l
    · -- the first line feed, so that what stands before it has none
      obtain ⟨line, rest, rfl, hline⟩ := List.eq_append_cons_of_mem hfeed
      rw [List.length_append, List.length_cons] at hlength
      exact cons line rest hline (ih rest.length (by omega) rest rfl)
    · rcases eq_or_ne l [] with rfl | hne
      · exact nil
      · exact last l hne hfeed

end

/-! ## Encoding -/

theorem encodeUtf8_eq (text : Text) : encodeUtf8 text = text.flatMap String.utf8EncodeChar := by
  rw [encodeUtf8, String.toByteArray_ofList]
  exact List.toList_data_toByteArray

@[simp] theorem encodeUtf8_nil : encodeUtf8 [] = [] := by
  rw [encodeUtf8_eq, List.flatMap_nil]

theorem encodeUtf8_cons (c : Char) (text : Text) :
    encodeUtf8 (c :: text) = String.utf8EncodeChar c ++ encodeUtf8 text := by
  rw [encodeUtf8_eq, encodeUtf8_eq, List.flatMap_cons]

theorem encodeUtf8_append (text rest : Text) :
    encodeUtf8 (text ++ rest) = encodeUtf8 text ++ encodeUtf8 rest := by
  rw [encodeUtf8_eq, encodeUtf8_eq, encodeUtf8_eq, List.flatMap_append]

theorem decodeUtf8?_eq_some_iff {bytes : Bytes} {text : Text} :
    decodeUtf8? bytes = some text ↔ bytes = encodeUtf8 text := by
  constructor
  · intro h
    obtain ⟨s, hs, rfl⟩ := Option.map_eq_some_iff.mp h
    rw [String.fromUTF8?] at hs
    split_ifs at hs with hvalid
    have hbytes : s.toByteArray = ⟨bytes.toArray⟩ := by
      rw [← Option.some_inj.mp hs]
      rfl
    rw [encodeUtf8, String.ofList_toList, hbytes]
  · rintro rfl
    exact decodeUtf8?_encodeUtf8 text

theorem encodeUtf8_ne_nil {text : Text} (h : text ≠ []) : encodeUtf8 text ≠ [] := by
  obtain ⟨c, rest, rfl⟩ := List.exists_cons_of_ne_nil h
  rw [encodeUtf8_cons]
  exact List.append_ne_nil_of_left_ne_nil String.utf8EncodeChar_ne_nil _

/-- A byte below 128 encodes a character by itself. -/
theorem toNat_eq_of_mem_utf8EncodeChar {c : Char} {b : UInt8} (h : b ∈ String.utf8EncodeChar c)
    (hb : b.toNat < 128) : c.toNat = b.toNat := by
  have hmod : ∀ n, (UInt8.ofNat n).toNat = n % 256 := fun n ↦ UInt8.toNat_ofNat'
  rw [String.utf8EncodeChar] at h
  split_ifs at h with hascii
  · rw [List.mem_singleton.mp h, hmod, Nat.mod_eq_of_lt (by omega)]
    rfl
  -- every byte of a longer encoding has its highest bit set
  all_goals
    simp only [List.mem_cons, List.not_mem_nil, or_false] at h
    rcases h with rfl | rfl | rfl | rfl <;> rw [hmod] at hb <;> omega

theorem feed_mem_encodeUtf8_iff {text : Text} : 10 ∈ encodeUtf8 text ↔ '\n' ∈ text := by
  rw [encodeUtf8_eq, List.mem_flatMap]
  constructor
  · rintro ⟨c, hc, hmem⟩
    have hfeed : c = '\n' := Char.toNat_inj.mp (toNat_eq_of_mem_utf8EncodeChar hmem (by decide))
    exact hfeed ▸ hc
  · intro hmem
    exact ⟨'\n', hmem, by decide⟩

theorem dropReturn_encodeUtf8 (line : Text) :
    dropReturn 13 (encodeUtf8 line) = encodeUtf8 (dropReturn '\r' line) := by
  rcases List.eq_nil_or_concat' line with rfl | ⟨before, c, rfl⟩
  · rfl
  · have hencode : encodeUtf8 (before ++ [c]) = encodeUtf8 before ++ String.utf8EncodeChar c := by
      rw [encodeUtf8_append, encodeUtf8_cons, encodeUtf8_nil, List.append_nil]
    by_cases hc : c = '\r'
    · subst hc
      have hreturn : String.utf8EncodeChar '\r' = [13] := by decide
      rw [hencode, hreturn, dropReturn_concat_self, dropReturn_concat_self]
    · obtain ⟨bytes, b, hb⟩ :=
        (List.eq_nil_or_concat' (String.utf8EncodeChar c)).resolve_left String.utf8EncodeChar_ne_nil
      have hne : b ≠ 13 := by
        rintro rfl
        have hmem : 13 ∈ String.utf8EncodeChar c := hb ▸ List.mem_append_right _ List.mem_cons_self
        exact hc (Char.toNat_inj.mp (toNat_eq_of_mem_utf8EncodeChar hmem (by decide)))
      rw [dropReturn_concat_of_ne hc, hencode, hb, ← List.append_assoc, dropReturn_concat_of_ne hne]

/-! ## Lines of an encoded text -/

/-- **Lines and encoding.** The lines of an encoded text are the lines of the text, encoded. -/
theorem splitLines_encodeUtf8 (text : Text) :
    splitLines 10 13 (encodeUtf8 text) = (textLines text).map encodeUtf8 := by
  rw [textLines]
  induction text using lines_induction '\n' with
  | nil => rfl
  | last line hne hfeed =>
    rw [splitLines_of_notMem hne hfeed, splitLines_of_notMem (encodeUtf8_ne_nil hne)
      (mt feed_mem_encodeUtf8_iff.mp hfeed), List.map_singleton]
  | cons line rest hfeed ih =>
    have hencode : encodeUtf8 (line ++ '\n' :: rest) = encodeUtf8 line ++ 10 :: encodeUtf8 rest := by
      rw [encodeUtf8_append, encodeUtf8_cons]
      rfl
    rw [hencode, splitLines_append_cons (mt feed_mem_encodeUtf8_iff.mp hfeed),
      splitLines_append_cons hfeed, ih, dropReturn_encodeUtf8, List.map_cons]

/-- Where all lines are text, so are they together, since the ends of lines are text as well. -/
theorem exists_eq_encodeUtf8_of_lines {bytes : Bytes}
    (h : ∀ line ∈ splitLines 10 13 bytes, ∃ text, line = encodeUtf8 text) :
    ∃ text, bytes = encodeUtf8 text := by
  induction bytes using lines_induction (10 : UInt8) with
  | nil => exact ⟨[], encodeUtf8_nil.symm⟩
  | last line hne hfeed =>
    rw [splitLines_of_notMem hne hfeed] at h
    exact h line List.mem_cons_self
  | cons line rest hfeed ih =>
    rw [splitLines_append_cons hfeed, List.forall_mem_cons] at h
    obtain ⟨⟨before, hbefore⟩, hrest⟩ := h
    obtain ⟨after, rfl⟩ := ih hrest
    -- the carriage return that is no part of the line is text as well
    have hline : ∃ text, line = encodeUtf8 text := by
      rcases eq_dropReturn_or 13 line with heq | heq
      · exact ⟨before, heq.trans hbefore⟩
      · refine ⟨before ++ ['\r'], ?_⟩
        rw [heq, hbefore, encodeUtf8_append]
        rfl
    obtain ⟨text, rfl⟩ := hline
    refine ⟨text ++ '\n' :: after, ?_⟩
    rw [encodeUtf8_append, encodeUtf8_cons]
    rfl

end PocketCalculator
