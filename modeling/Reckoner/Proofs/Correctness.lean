/-
  Reckoner/Proofs/Correctness.lean
  ================================
  **The calculator on formulas.**  A formula, laid out in any way, passes both
  checks, is cut into its leaves, fused into its tokens and brought into its
  post-order, and evaluating that order gives its value.  Each stage is one lemma
  about formulas here or in the modules before; the main statement is their chain.
-/
import Reckoner.Calculator
import Reckoner.Proofs.Evaluation
import Reckoner.Proofs.Order

namespace Reckoner

open Reckoner.Number Reckoner.Text ReversePolish

/-! ### The checks -/

theorem Lexeme.inAlphabet {d : Lexeme} {c : Char} (hc : c ∈ d.chars) : inAlphabet c = true := by
  rcases d.digit_or_point c hc with hdigit | rfl
  · simp [Reckoner.inAlphabet, hdigit]
  · decide

theorem Leaf.inAlphabet (leaf : Leaf) : ∀ c ∈ leaf.text.toList, inAlphabet c = true := by
  have hsymbol : ∀ op : Operator, op.symbol.toList.all Reckoner.inAlphabet = true := by
    intro op
    cases op <;> decide
  cases leaf with
  | number d =>
    intro c hc
    have htext : (Leaf.number d).text.toList = d.chars := by simp [Leaf.text, Lexeme.text]
    rw [htext] at hc
    exact Lexeme.inAlphabet hc
  | operator op => exact List.all_eq_true.mp (hsymbol op)
  | opening =>
    have hopening : "(".toList.all Reckoner.inAlphabet = true := by decide
    exact List.all_eq_true.mp hopening
  | closing =>
    have hclosing : ")".toList.all Reckoner.inAlphabet = true := by decide
    exact List.all_eq_true.mp hclosing

theorem inAlphabet_of_spaced {leaves : List Leaf} {cs : List Char} (h : Spaced leaves cs) :
    ∀ c ∈ cs, inAlphabet c = true := by
  have hspace : inAlphabet ' ' = true := by decide
  induction h with
  | nil spaces =>
    intro c hc
    rw [List.eq_of_mem_replicate hc]
    exact hspace
  | cons spaces leaf _ ih =>
    intro c hc
    rcases List.mem_append.mp hc with hc | hc
    · rw [List.eq_of_mem_replicate hc]
      exact hspace
    · rcases List.mem_append.mp hc with hc | hc
      · exact leaf.inAlphabet c hc
      · exact ih c hc

theorem Leaf.exists_not_isBlank (leaf : Leaf) : ∃ c ∈ leaf.text.toList, isBlank c = false := by
  cases leaf with
  | number d =>
    obtain ⟨c, hc⟩ := List.exists_mem_of_ne_nil _ d.chars_ne_nil
    refine ⟨c, ?_, (not_isBlank_of_digit_or_point (d.digit_or_point c hc)).1⟩
    simpa [Leaf.text, Lexeme.text] using hc
  | operator op =>
    cases op with
    | add => exact ⟨'+', List.mem_singleton.mpr rfl, by decide⟩
    | subtract => exact ⟨'-', List.mem_singleton.mpr rfl, by decide⟩
    | multiply => exact ⟨'*', List.mem_singleton.mpr rfl, by decide⟩
    | divide => exact ⟨'/', List.mem_singleton.mpr rfl, by decide⟩
  | opening => exact ⟨'(', List.mem_singleton.mpr rfl, by decide⟩
  | closing => exact ⟨')', List.mem_singleton.mpr rfl, by decide⟩

theorem checkAlphabet_of_spaced {leaves : List Leaf} {text : String}
    (h : Spaced leaves text.toList) (hne : leaves ≠ []) : checkAlphabet text = .ok () := by
  have hshown : allBlank text = false := by
    rw [allBlank, List.all_eq_false]
    generalize text.toList = cs at h
    cases h with
    | nil spaces => exact absurd rfl hne
    | cons spaces leaf _ =>
      obtain ⟨c, hc, hblank⟩ := leaf.exists_not_isBlank
      exact ⟨c, by simp [hc], by simp [hblank]⟩
  have halphabet : (withoutLineEnd text.toList).all inAlphabet = true := by
    rw [List.all_eq_true]
    intro c hc
    refine inAlphabet_of_spaced h c ?_
    rw [withoutLineEnd] at hc
    split at hc
    · exact List.dropLast_subset _ hc
    · exact hc
  rw [checkAlphabet, hshown, halphabet]
  rfl

namespace Formula

theorem leaves_ne_nil {level : Level} (e : Formula level) : e.leaves ≠ [] := by
  induction e with
  | literal l => simp [leaves, Literal.leaves]
  | group inner _ => simp [leaves]
  | factor f ih => exact ih
  | term t ih => exact ih
  | operation op left right _ _ => simp [leaves]

/-- No two numerals of a formula stand side by side. -/
theorem leaves_apart {level : Level} (e : Formula level) : e.leaves.IsChain Pending.Apart := by
  have hopening : ∀ leaf, Pending.Apart .opening leaf := fun leaf => by cases leaf <;> trivial
  have hclosing : ∀ leaf, Pending.Apart leaf .closing := fun leaf => by cases leaf <;> trivial
  have hbefore : ∀ op leaf, Pending.Apart leaf (.operator op) :=
    fun op leaf => by cases leaf <;> trivial
  have hafter : ∀ op leaf, Pending.Apart (.operator op) leaf :=
    fun op leaf => by cases leaf <;> trivial
  induction e with
  | literal l =>
    cases hn : l.negative with
    | false => simp [leaves, Literal.leaves, hn]
    | true => simpa [leaves, Literal.leaves, hn] using hafter _ _
  | group inner ih =>
    refine List.isChain_cons.mpr ⟨fun leaf _ => hopening leaf, ?_⟩
    refine List.isChain_append.mpr ⟨ih, List.isChain_singleton _, ?_⟩
    intro leaf _ last hmem
    cases hmem
    exact hclosing leaf
  | factor f ih => exact ih
  | term t ih => exact ih
  | operation op left right ihl ihr =>
    have htail : (Leaf.operator op :: right.leaves).IsChain Pending.Apart :=
      List.isChain_cons.mpr ⟨fun leaf _ => hafter op leaf, ihr⟩
    refine List.isChain_append.mpr ⟨ihl, htail, ?_⟩
    intro leaf _ operator hmem
    cases hmem
    exact hbefore op leaf

/-- Every parenthesis of a formula is closed in it. -/
theorem balancedTokens_leaves {level : Level} (e : Formula level) (depth : Nat)
    (rest : List Token) :
    balancedTokens depth (e.leaves.map Leaf.token ++ rest) = balancedTokens depth rest := by
  induction e generalizing depth rest with
  | literal l => cases hn : l.negative <;> simp [leaves, Literal.leaves, hn, Leaf.token, balancedTokens]
  | group inner ih =>
    have hsplit : (Formula.group inner).leaves.map Leaf.token ++ rest =
        Leaf.opening.token :: (inner.leaves.map Leaf.token ++ (Leaf.closing.token :: rest)) := by
      simp [leaves]
    rw [hsplit]
    show balancedTokens (depth + 1) _ = _
    rw [ih]
    rfl
  | factor f ih => exact ih depth rest
  | term t ih => exact ih depth rest
  | operation op left right ihl ihr =>
    have hsplit : (Formula.operation op left right).leaves.map Leaf.token ++ rest =
        left.leaves.map Leaf.token ++
          ((Leaf.operator op).token :: (right.leaves.map Leaf.token ++ rest)) := by
      simp [leaves]
    have hop : balancedTokens depth ((Leaf.operator op).token ::
        (right.leaves.map Leaf.token ++ rest)) =
          balancedTokens depth (right.leaves.map Leaf.token ++ rest) := rfl
    rw [hsplit, ihl, hop, ihr]

/-! ### Post-order and value -/

/-- A formula as a tree of items. -/
def tree : {level : Level} → Formula level → Tree
  | _, .literal l => .operand l.text (by rw [readFloat?_literal]; rfl)
  | _, .group inner => inner.tree
  | _, .factor f => f.tree
  | _, .term t => t.tree
  | _, .operation op left right => .node op left.tree right.tree

theorem items_tree {level : Level} (e : Formula level) : e.tree.items = e.listing := by
  induction e with
  | literal l => rfl
  | group inner ih => exact ih
  | factor f ih => exact ih
  | term t ih => exact ih
  | operation op left right ihl ihr => rw [tree, Tree.items, ihl, ihr, listing]

theorem value_tree {level : Level} (e : Formula level)
    (hsafe : ∀ l ∈ e.literals, inSafeRange l.value = true) : e.tree.value = e.value := by
  induction e with
  | literal l => exact checkOperand_literal (hsafe l (by simp [literals]))
  | group inner ih => exact ih hsafe
  | factor f ih => exact ih hsafe
  | term t ih => exact ih hsafe
  | operation op left right ihl ihr =>
    obtain ⟨hl, hr⟩ := List.forall_mem_append.mp hsafe
    rw [tree, Tree.value, ihl hl, ihr hr, value]

/-- The number tokens of a formula are its literals. -/
theorem tokens_spelled {level : Level} (e : Formula level) :
    ∀ t ∈ e.tokens, t.Spelled ∧ (t.kind = .number → ∃ l ∈ e.literals, t = l.token) := by
  induction e with
  | literal l =>
    intro t ht
    cases List.mem_singleton.mp ht
    exact ⟨.number l, fun _ => ⟨l, List.mem_singleton.mpr rfl, rfl⟩⟩
  | group inner ih =>
    intro t ht
    rcases List.mem_cons.mp ht with rfl | ht
    · exact ⟨.opening, nofun⟩
    · rcases List.mem_append.mp ht with ht | ht
      · exact ih t ht
      · cases List.mem_singleton.mp ht
        exact ⟨.closing, nofun⟩
  | factor f ih => exact ih
  | term t ih => exact ih
  | operation op left right ihl ihr =>
    intro t ht
    rcases List.mem_append.mp ht with ht | ht
    · obtain ⟨hspelled, hliteral⟩ := ihl t ht
      refine ⟨hspelled, fun hk => ?_⟩
      obtain ⟨l, hl, rfl⟩ := hliteral hk
      exact ⟨l, List.mem_append_left _ hl, rfl⟩
    · rcases List.mem_cons.mp ht with rfl | ht
      · exact ⟨.operator op, nofun⟩
      · obtain ⟨hspelled, hliteral⟩ := ihr t ht
        refine ⟨hspelled, fun hk => ?_⟩
        obtain ⟨l, hl, rfl⟩ := hliteral hk
        exact ⟨l, List.mem_append_right _ hl, rfl⟩

theorem operands_tokens {level : Level} (e : Formula level)
    (hsafe : ∀ l ∈ e.literals, inSafeRange l.value = true) : Operands e.tokens := by
  intro t ht hk
  obtain ⟨l, hl, rfl⟩ := (e.tokens_spelled t ht).2 hk
  exact ⟨l.value, checkOperand_literal (hsafe l hl)⟩

theorem listing_ne_nil {level : Level} (e : Formula level) : e.listing ≠ [] := by
  induction e with
  | literal l => simp [listing]
  | group inner ih => exact ih
  | factor f ih => exact ih
  | term t ih => exact ih
  | operation op left right _ _ => simp [listing]

/-! ### The stages -/

section Stages

variable {e : Formula .sum} {text : String}

theorem scan_of_spaced (h : Spaced e.leaves text.toList) :
    Pending.nothing.scan text.toList = e.leaves.map Leaf.token :=
  Pending.scan_spaced h e.leaves_apart

theorem checkParentheses_of_spaced (h : Spaced e.leaves text.toList) :
    checkParentheses text = .ok () := by
  have hbalanced : balanced 0 text.toList = true := by
    rw [← balanced_scan .nothing, scan_of_spaced h]
    have := e.balancedTokens_leaves 0 []
    rwa [List.append_nil] at this
  rw [checkParentheses, checkBalance, hbalanced]
  rfl

theorem tokenize_of_spaced (h : Spaced e.leaves text.toList) :
    tokenize text = .ok (e.leaves.map Leaf.token) := by
  rw [tokenize, scan_of_spaced h]
  cases hleaves : e.leaves with
  | nil => exact absurd hleaves e.leaves_ne_nil
  | cons leaf leaves => rfl

variable (hsafe : ∀ l ∈ e.literals, inSafeRange l.value = true)
include hsafe

theorem fuseSigns_leaves : fuseSigns (e.leaves.map Leaf.token) = .ok e.tokens := by
  have := fuseFrom_formula e hsafe []
  rw [List.append_nil] at this
  rw [fuseSigns, this]
  simp [fuseFrom]

theorem exists_ofTokens :
    ∃ out, ofTokens e.tokens = .ok out ∧ out.map Token.text = e.listing ∧ ∀ t ∈ out, t.Spelled := by
  obtain ⟨out, hreorders, htexts⟩ := e.reorders
  have hreorder : reorder [] e.tokens = .ok out :=
    reorder_eq_ok_iff.mpr ⟨hreorders.mono (Nat.zero_le _), e.operands_tokens hsafe⟩
  have hne : out ≠ [] := by
    rintro rfl
    exact e.listing_ne_nil htexts.symm
  refine ⟨out, ?_, htexts, fun t ht => (e.tokens_spelled t (hreorders.mem ht)).1⟩
  rw [ofTokens, hreorder]
  cases out with
  | nil => exact absurd rfl hne
  | cons t out => rfl

/-- **The reverse Polish text of a formula is its post-order.** -/
theorem toReversePolish_of_spaced (h : Spaced e.leaves text.toList) :
    toReversePolish text = .ok (" ".intercalate e.listing) := by
  obtain ⟨out, hout, htexts, -⟩ := exists_ofTokens hsafe
  rw [toReversePolish, checkAlphabet_of_spaced h e.leaves_ne_nil, checkParentheses_of_spaced h,
    tokenize_of_spaced h]
  simp only [Outcome.ok_bind]
  rw [fuseSigns_leaves hsafe, Outcome.ok_bind, textOf, hout, Outcome.map_ok, render, htexts]

/-- **The calculator gives a formula's value**, or its first failure. -/
theorem calculate_of_spaced (h : Spaced e.leaves text.toList) : calculate text = e.value := by
  obtain ⟨out, -, htexts, hspelled⟩ := exists_ofTokens hsafe
  have hwords : words (" ".intercalate e.listing) = e.listing := by
    rw [← htexts]
    exact words_render hspelled
  rw [calculate, toReversePolish_of_spaced hsafe h, Outcome.ok_bind, evaluate, hwords,
    ← e.items_tree, evaluateItems_items, e.value_tree hsafe]

end Stages

/-- **The calculator is correct on the infix language.**  Whatever the formula and
    however it is laid out, the reverse Polish text is its post-order and the
    result is its value, where all literals are in the safe range. -/
theorem calculator_correct (e : Formula .sum)
    (hsafe : ∀ l ∈ e.literals, inSafeRange l.value = true) (text : String)
    (h : Spaced e.leaves text.toList) :
    toReversePolish text = .ok (" ".intercalate e.listing) ∧ calculate text = e.value :=
  ⟨toReversePolish_of_spaced hsafe h, calculate_of_spaced hsafe h⟩

/-- The formula `(1 - 2) * -.5`. -/
def halvedDifference : Formula .sum :=
  .term (.operation .multiply
    (.factor (.group (.operation .subtract
      (.term (.factor (.literal ⟨false, .digit false '1' rfl⟩)))
      (.factor (.literal ⟨false, .digit false '2' rfl⟩)))))
    (.literal ⟨true, .digit true '5' rfl⟩))

theorem calculator_correct_halvedDifference :
    toReversePolish "( 1-2)*- .5 " = .ok "1 2 - -.5 *" ∧ calculate "( 1-2)*- .5 " = .ok 0.5 := by
  have hsafe : ∀ l ∈ halvedDifference.literals, inSafeRange l.value = true := by decide +kernel
  have hspaced : Spaced halvedDifference.leaves "( 1-2)*- .5 ".toList :=
    .cons 0 .opening (.cons 1 (.number _) (.cons 0 (.operator .subtract) (.cons 0 (.number _)
      (.cons 0 .closing (.cons 0 (.operator .multiply) (.cons 0 (.operator .subtract)
        (.cons 1 (.number _) (.nil 1))))))))
  have hlisting : " ".intercalate halvedDifference.listing = "1 2 - -.5 *" := by decide +kernel
  have hvalue : halvedDifference.value = .ok 0.5 := by decide +kernel
  obtain ⟨hpolish, hresult⟩ := calculator_correct halvedDifference hsafe "( 1-2)*- .5 " hspaced
  rw [hlisting] at hpolish
  rw [hvalue] at hresult
  exact ⟨hpolish, hresult⟩

end Formula

end Reckoner
