/-
  Reckoner/Proofs/Nesting.lean
  ============================
  **Parentheses around parentheses.**  To put a second pair of parentheses around a
  group makes no difference, whatever the group holds and whatever stands around
  it: the value is the same, or the failure with its message
  (`calculate_doubled`).  All that is asked of the group is that its own parentheses
  pair up.

  Both texts differ in two characters that every stage before the converter passes
  over alike.  In the converter one `(` more waits below the group.  That goes
  unnoticed for one of two reasons (`order_or_refusal`):

    * the tokens of the group have an order of their own, and they leave in it
      before anything below them does;
    * or they hold one that is wrong wherever it stands, since no `)` of a row that
      pairs up is without its `(`; then the leftmost such token is what the
      converter stops at, from any stack.
-/
import Reckoner.Proofs.Groups
import Reckoner.Proofs.Offences

namespace Reckoner

open Reckoner.Number Reckoner.Text ReversePolish

/-! ### Rows that pair up -/

theorem balancedTokens_cons_of_not_offends {depth : Nat} {t : Token}
    (h : ∀ failure, ¬ Offends (0 < depth) t failure) (ts : List Token) :
    balancedTokens depth (t :: ts) = balancedTokens (depthStep depth t) ts := by
  refine balancedTokens_cons_of_opened (fun hk hzero => ?_) ts
  exact h _ (.unopened hk (by omega))

/-- Over tokens with nothing wrong the check of the parentheses only counts. -/
theorem Clean.balancedTokens_append {ts : List Token} (rest : List Token) :
    ∀ {depth : Nat}, Clean depth ts →
      balancedTokens depth (ts ++ rest) = balancedTokens (depthAfter depth ts) rest := by
  induction ts with
  | nil =>
    intro depth _
    rfl
  | cons t ts ih =>
    intro depth h
    obtain ⟨hfirst, hrest⟩ := clean_cons.mp h
    rw [List.cons_append, balancedTokens_cons_of_not_offends hfirst, ih hrest]
    rfl

/-- In a row that pairs up, the first token with something wrong is wrong wherever it
    stands. -/
theorem Offends.anywhere {depth : Nat} {before after : List Token} {t : Token}
    {failure : Failure} (h : Offends (0 < depthAfter depth before) t failure)
    (hclean : Clean depth before)
    (hbalanced : balancedTokens depth (before ++ t :: after) = true) (someOpen : Prop) :
    Offends someOpen t failure := by
  cases h with
  | unknown hk => exact .unknown hk
  | outside hk hx => exact .outside hk hx
  | unopened hk hnone =>
    have hzero : depthAfter depth before = 0 := by omega
    rw [hclean.balancedTokens_append, hzero] at hbalanced
    simp [balancedTokens, hk] at hbalanced

/-- **A row that pairs up has an order or a refusal of its own**, the same from any
    stack. -/
theorem order_or_refusal {m : List Token} (hbalanced : balancedTokens 0 m = true) :
    (∃ out, Reorders (.chain 0) m out ∧ Operands m) ∨
      ∃ failure, ∀ stack rest, reorder stack (m ++ rest) = .error failure := by
  by_cases hclean : Clean 0 m
  · have hzero : depthAfter 0 m = 0 := by
      have hend := hclean.balancedTokens_append []
      rw [List.append_nil, hbalanced] at hend
      simpa [balancedTokens] using hend.symm
    rcases hclean.reorder_cases with ⟨hopen, -⟩ | ⟨-, out, hout⟩
    · exact absurd hzero (Nat.ne_of_gt (unclosed_iff.mp hopen))
    · exact Or.inl ⟨out, reorder_eq_ok_iff.mp hout⟩
  · obtain ⟨before, t, after, failure, rfl, hbefore, hoffends⟩ :=
      exists_first_of_not_clean hclean
    refine Or.inr ⟨failure, fun stack rest => ?_⟩
    have hanywhere := hoffends.anywhere hbefore hbalanced
    rw [List.append_assoc, List.cons_append]
    exact reorder_of_first (hbefore.mono (Nat.zero_le _)) (hanywhere _) (after ++ rest)

/-! ### Order -/

namespace ReversePolish

theorem reorder_congr_append {xs ys : List Token}
    (h : ∀ stack, reorder stack xs = reorder stack ys) (before : List Token) :
    ∀ stack, reorder stack (before ++ xs) = reorder stack (before ++ ys) := by
  induction before with
  | nil => exact h
  | cons t before ih =>
    intro stack
    simp only [List.cons_append, reorder, ih]

/-- **The converter does not see a second pair of parentheses**, whatever waits below
    and whatever follows. -/
theorem reorder_doubled {m : List Token} (hbalanced : balancedTokens 0 m = true)
    (rest stack : List Token) :
    reorder stack (Leaf.opening.token ::
        ((Leaf.opening.token :: (m ++ [Leaf.closing.token])) ++ Leaf.closing.token :: rest)) =
      reorder stack (Leaf.opening.token :: (m ++ Leaf.closing.token :: rest)) := by
  rcases order_or_refusal hbalanced with ⟨out, hout, hoperands⟩ | ⟨failure, hrefused⟩
  · have hgroup : Reorders (.chain 0) (Leaf.opening.token :: (m ++ [Leaf.closing.token])) out :=
      .chain 0 (Reorders.nothing.group rfl hout rfl)
    have hgroupOperands : Operands (Leaf.opening.token :: (m ++ [Leaf.closing.token])) := by
      intro t ht hk
      simp only [List.mem_cons, List.mem_append, List.not_mem_nil, or_false] at ht
      rcases ht with rfl | ht | rfl
      · cases hk
      · exact hoperands t ht hk
      · cases hk
    rw [reorder_group hgroup hgroupOperands, reorder_group hout hoperands]
  · have hopening : ∀ stack rest, reorder stack (Leaf.opening.token :: rest) =
        reorder (Leaf.opening.token :: stack) rest := fun _ _ => rfl
    rw [hopening, List.cons_append, hopening, List.append_assoc, hrefused, hopening, hrefused]

end ReversePolish

/-! ### Texts -/

/-- The characters of a group whose parentheses have been doubled. -/
theorem toList_doubled (u s v : String) :
    (u ++ "((" ++ s ++ "))" ++ v).toList =
      grouped u.toList (grouped [] s.toList []) v.toList := by
  simp [grouped]

theorem checkAlphabet_doubled {text doubled : String} {u s v : List Char}
    (htext : text.toList = grouped u s v)
    (hdoubled : doubled.toList = grouped u (grouped [] s []) v) :
    checkAlphabet doubled = checkAlphabet text := by
  have hopening : inAlphabet '(' = true := by decide
  have hclosing : inAlphabet ')' = true := by decide
  have hall : (grouped [] s []).all inAlphabet = s.all inAlphabet := by
    simp [grouped, hopening, hclosing]
  rw [checkAlphabet_grouped_eq htext, checkAlphabet_grouped_eq hdoubled, hall]

theorem checkBalance_doubled {s : List Char} (hs : balanced 0 s = true) (u v : List Char) :
    checkBalance (grouped u (grouped [] s []) v) = checkBalance (grouped u s v) := by
  have hgroup : balanced 0 (grouped [] s []) = true := balanced_group hs [] 0
  have hpass : ∀ depth, balanced depth ('(' :: (grouped [] s [] ++ ')' :: v)) =
      balanced depth ('(' :: (s ++ ')' :: v)) := by
    intro depth
    rw [balanced_group hgroup, balanced_group hs]
  rw [checkBalance, checkBalance, grouped, balanced_congr_append hpass u 0]
  rfl

/-- The tokens of a group are the fused tokens inside it between its parentheses. -/
theorem fuseFrom_scan_grouped (s : List Char) :
    fuseFrom true (Pending.nothing.scan (grouped [] s [])) =
      (fun m => Leaf.opening.token :: (m ++ [Leaf.closing.token])) <$>
        fuseFrom true (Pending.nothing.scan s) := by
  rw [Pending.scan_grouped, fuseFrom_grouped]
  cases fuseFrom true (Pending.nothing.scan s) <;> rfl

/-- **Doubled parentheses make no difference**, neither to the reverse Polish text nor
    to the result, be it a value or a failure with its message: in any surroundings,
    around anything whose own parentheses pair up. -/
theorem calculate_doubled {s : String} (hs : checkParentheses s = .ok ()) (u v : String) :
    calculate (u ++ "((" ++ s ++ "))" ++ v) = calculate (u ++ "(" ++ s ++ ")" ++ v) ∧
      toReversePolish (u ++ "((" ++ s ++ "))" ++ v) =
        toReversePolish (u ++ "(" ++ s ++ ")" ++ v) := by
  have hbalanced : balanced 0 s.toList = true := checkParentheses_eq_ok.mp hs
  have htext := toList_grouped u s v
  have hdoubled := toList_doubled u s v
  have hpolish : toReversePolish (u ++ "((" ++ s ++ "))" ++ v) =
      toReversePolish (u ++ "(" ++ s ++ ")" ++ v) := by
    rw [toReversePolish_grouped hdoubled, toReversePolish_grouped htext,
      checkAlphabet_doubled htext hdoubled, checkBalance_doubled hbalanced,
      fuseFrom_scan_grouped]
    cases hm : fuseFrom true (Pending.nothing.scan s.toList) with
    | error failure => rfl
    | ok m =>
      have hpaired : balancedTokens 0 m = true := by
        rw [(fused_of_fuseFrom hm).balancedTokens_eq, balanced_scan]
        exact hbalanced
      have hsame : ∀ front back, textOf (front ++ Leaf.opening.token ::
            ((Leaf.opening.token :: (m ++ [Leaf.closing.token])) ++
              Leaf.closing.token :: back)) =
          textOf (front ++ Leaf.opening.token :: (m ++ Leaf.closing.token :: back)) := by
        intro front back
        rw [textOf, textOf, ofTokens, ofTokens,
          reorder_congr_append (reorder_doubled hpaired back) front []]
      simp only [Outcome.map_ok, Outcome.ok_bind, hsame]
  refine ⟨?_, hpolish⟩
  rw [calculate, calculate, hpolish]

/-- An empty group and an operand out of range, divided by zero: the operand is what is
    refused, with one pair of parentheses around them or with two. -/
theorem calculate_doubled_malformed :
    checkParentheses "()-9007199254740993" = .ok () ∧
      calculate ("2*" ++ "((" ++ "()-9007199254740993" ++ "))" ++ "/0") =
        fail .numberOutOfRange := by
  have hpaired : checkParentheses "()-9007199254740993" = .ok () := by decide +kernel
  refine ⟨hpaired, ?_⟩
  rw [(calculate_doubled hpaired "2*" "/0").1]
  decide +kernel

end Reckoner
