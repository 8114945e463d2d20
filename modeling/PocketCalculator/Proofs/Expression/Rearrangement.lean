import PocketCalculator.Proofs.Expression.Dangling

/-!
# The postfix order as a rearrangement

The postfix order of tokens has the same numbers, the same operators and as many opening parentheses
as are never closed, and nothing else (`postfixOrder_perm`). Only the operators move: a number comes
out where it is read, since nothing that waits is a number (`filter_isNumber_orderFrom`), so the
numbers keep their order.
-/

namespace PocketCalculator

/-! ## Numbers -/

/-- A number comes out at once, and no other token makes one come out. -/
theorem filter_isNumber_released {waiting : List Token}
    (h : ∀ t ∈ waiting, t.isNumber = false) (token : Token) :
    (released waiting token).filter (·.isNumber) = [token].filter (·.isNumber) := by
  have hnone : ∀ {part : List Token}, part.Sublist waiting →
      part.filter (·.isNumber) = [] := fun hpart ↦
    List.filter_eq_nil_iff.mpr fun t ht ↦ by rw [h t (hpart.subset ht)]; exact Bool.false_ne_true
  rcases token with text | op | _ | _
  · rfl
  · exact hnone (List.takeWhile_sublist _)
  · rfl
  · exact hnone (List.takeWhile_sublist _)

theorem isNumber_eq_false_of_mem_stillWaiting {waiting : List Token}
    (h : ∀ t ∈ waiting, t.isNumber = false) (token : Token) :
    ∀ t ∈ stillWaiting waiting token, t.isNumber = false := by
  intro t ht
  rcases token with text | op | _ | _
  · exact h t ht
  all_goals
    rcases mem_of_mem_stillWaiting ht with rfl | hwaits
    · rfl
    · exact h t hwaits

theorem filter_isNumber_orderFrom (tokens : List Token) {waiting : List Token}
    (h : ∀ t ∈ waiting, t.isNumber = false) :
    (orderFrom waiting tokens).filter (·.isNumber) = tokens.filter (·.isNumber) := by
  induction tokens generalizing waiting with
  | nil =>
    refine List.filter_eq_nil_iff.mpr fun t ht ↦ ?_
    rw [h t ht]
    exact Bool.false_ne_true
  | cons token rest ih =>
    rw [orderFrom_cons, List.filter_append, filter_isNumber_released h,
      ih (isNumber_eq_false_of_mem_stillWaiting h token), ← List.filter_append,
      List.singleton_append]

/-! ## All tokens -/

/-- The numbers, the operators and the parentheses that are never closed. -/
theorem postfixOrder_perm (tokens : List Token) :
    (postfixOrder tokens).Perm
      (tokens.filter (fun t ↦ t.isNumber || t.isOperator) ++
        List.replicate (unclosed tokens) .openParen) := by
  refine List.perm_iff_count.mpr fun t ↦ ?_
  rw [List.count_append, List.count_replicate]
  have hkept : ∀ t : Token, (t == .openParen) = false → (t == .closeParen) = false →
      (postfixOrder tokens).count t = tokens.count t := fun t hopen hclose ↦
    countP_postfixOrder_of_not_paren (by rwa [Bool.beq_comm]) (by rwa [Bool.beq_comm]) tokens
  have hparen : ∀ t : Token, (t.isNumber || t.isOperator) = false →
      (tokens.filter (fun t ↦ t.isNumber || t.isOperator)).count t = 0 := fun t ht ↦ by
    rw [List.count_eq_zero, List.mem_filter, ht]
    exact fun h ↦ Bool.false_ne_true h.2
  rcases t with text | op | _ | _
  · rw [hkept _ rfl rfl, List.count_filter rfl]
    rfl
  · rw [hkept _ rfl rfl, List.count_filter rfl]
    rfl
  · rw [count_openParen_postfixOrder, hparen _ rfl, Nat.zero_add]
    rfl
  · rw [List.count_eq_zero.mpr (closeParen_notMem_postfixOrder tokens), hparen _ rfl]
    rfl

theorem filter_isOperator_postfixOrder_perm (tokens : List Token) :
    ((postfixOrder tokens).filter (·.isOperator)).Perm (tokens.filter (·.isOperator)) := by
  have hoperators := (postfixOrder_perm tokens).filter (·.isOperator)
  have hparens : (List.replicate (unclosed tokens) Token.openParen).filter (·.isOperator) = [] := by
    rw [List.filter_replicate]
    rfl
  have hsame : tokens.filter (fun t ↦ t.isOperator && (t.isNumber || t.isOperator)) =
      tokens.filter (·.isOperator) :=
    List.filter_congr fun t _ ↦ by cases t <;> rfl
  rwa [List.filter_append, List.filter_filter, hparens, List.append_nil, hsame] at hoperators

/-- **The postfix order is a rearrangement.** No closing parenthesis comes out, the numbers come out
in their order, the operators in some order, and as many opening parentheses as are never closed;
and that is all. -/
theorem postfixOrder_rearranges (tokens : List Token) :
    .closeParen ∉ postfixOrder tokens ∧
      (postfixOrder tokens).filter (·.isNumber) = tokens.filter (·.isNumber) ∧
      ((postfixOrder tokens).filter (·.isOperator)).Perm (tokens.filter (·.isOperator)) ∧
      (postfixOrder tokens).count .openParen = unclosed tokens ∧
      (postfixOrder tokens).Perm
        (tokens.filter (fun t ↦ t.isNumber || t.isOperator) ++
          List.replicate (unclosed tokens) .openParen) :=
  ⟨closeParen_notMem_postfixOrder tokens,
    filter_isNumber_orderFrom tokens fun _ ht ↦ absurd ht List.not_mem_nil,
    filter_isOperator_postfixOrder_perm tokens, count_openParen_postfixOrder tokens,
    postfixOrder_perm tokens⟩

end PocketCalculator
