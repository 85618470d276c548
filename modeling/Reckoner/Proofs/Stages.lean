/-
  Reckoner/Proofs/Stages.lean
  ===========================
  **The stages of a calculation.**  A text passes two checks, is cut into tokens,
  freed of its signs, put in order and evaluated.  Here stands what the later
  modules need to know of one stage at a time:

    * what its result is made of, whatever the text: tokens that are spelled as
      their kind asks, with the parentheses of the text (`spelled_of_fuseSigns`,
      `balancedTokens_of_fuseSigns`);
    * which kinds of failures it may give.

  The failures of the converter and of the evaluator take an argument of their
  own and stand in the modules about those two.
-/
import Reckoner.Calculator
import Reckoner.Proofs.Evaluation
import Reckoner.Proofs.Outcome
import Reckoner.Proofs.Signs

namespace Reckoner

open Reckoner.Number Reckoner.Text ReversePolish

variable {text : String} {tokens m : List Token}

/-! ### One stage behind the other -/

theorem toReversePolish_eq_ok {polish : String} :
    toReversePolish text = .ok polish ↔
      checkAlphabet text = .ok () ∧ checkParentheses text = .ok () ∧
        ∃ tokens m, tokenize text = .ok tokens ∧ fuseSigns tokens = .ok m ∧
          textOf m = .ok polish := by
  rw [toReversePolish]
  constructor
  · intro h
    obtain ⟨_, halphabet, h⟩ := Outcome.bind_eq_ok.mp h
    obtain ⟨_, hparentheses, h⟩ := Outcome.bind_eq_ok.mp h
    obtain ⟨tokens, htokens, h⟩ := Outcome.bind_eq_ok.mp h
    obtain ⟨m, hfused, h⟩ := Outcome.bind_eq_ok.mp h
    exact ⟨halphabet, hparentheses, tokens, m, htokens, hfused, h⟩
  · intro h
    obtain ⟨halphabet, hparentheses, tokens, m, htokens, hfused, h⟩ := h
    rw [halphabet, hparentheses, htokens]
    simp only [Outcome.ok_bind, hfused, h]

/-- What a text with a value has passed. -/
theorem passed_of_calculate {x : Float} (h : calculate text = .ok x) :
    checkAlphabet text = .ok () ∧ checkParentheses text = .ok () ∧
      ∃ tokens m, tokenize text = .ok tokens ∧ fuseSigns tokens = .ok m := by
  obtain ⟨polish, hpolish, -⟩ := Outcome.bind_eq_ok.mp h
  obtain ⟨halphabet, hparentheses, tokens, m, htokens, hfused, -⟩ :=
    toReversePolish_eq_ok.mp hpolish
  exact ⟨halphabet, hparentheses, tokens, m, htokens, hfused⟩

/-- Past both checks the result is that of the fused tokens. -/
theorem calculate_eq (halphabet : checkAlphabet text = .ok ())
    (hparentheses : checkParentheses text = .ok ()) (htokens : tokenize text = .ok tokens)
    (hfused : fuseSigns tokens = .ok m) : calculate text = textOf m >>= evaluate := by
  rw [calculate, toReversePolish, halphabet, hparentheses, htokens]
  simp only [Outcome.ok_bind, hfused]

/-! ### What the tokens are -/

theorem scan_of_tokenize (h : tokenize text = .ok tokens) :
    Pending.nothing.scan text.toList = tokens := by
  rw [tokenize] at h
  split at h
  · cases h
  · cases h; rfl

/-- Every token that the lexer gives is a terminal of the grammar. -/
theorem leaf_of_mem_scan (cs : List Char) :
    ∀ t ∈ Pending.nothing.scan cs, ∃ leaf : Leaf, t = leaf.token := by
  have hnothing : Pending.nothing.Sound := trivial
  exact hnothing.scan cs

theorem leaf_of_tokenize (h : tokenize text = .ok tokens) :
    ∀ t ∈ tokens, ∃ leaf : Leaf, t = leaf.token := by
  rw [← scan_of_tokenize h]
  exact leaf_of_mem_scan text.toList

theorem spelled_of_scan {expected : Bool} {cs : List Char}
    (h : fuseFrom expected (Pending.nothing.scan cs) = .ok m) : ∀ t ∈ m, t.Spelled :=
  (fused_of_fuseFrom h).spelled (leaf_of_mem_scan cs)

theorem checkAlphabet_eq_ok :
    checkAlphabet text = .ok () ↔
      allBlank text = false ∧ (withoutLineEnd text.toList).all inAlphabet = true := by
  rw [checkAlphabet]
  split
  · next hblank => simp [hblank, fail]
  · next hshown =>
    split
    · next hall => simp [hshown, hall]
    · next hall => simp [hall, fail]

theorem spelled_of_fuseSigns (htokens : tokenize text = .ok tokens)
    (hfused : fuseSigns tokens = .ok m) : ∀ t ∈ m, t.Spelled :=
  (fused_of_fuseFrom hfused).spelled (leaf_of_tokenize htokens)

theorem checkParentheses_eq_ok :
    checkParentheses text = .ok () ↔ balanced 0 text.toList = true := by
  rw [checkParentheses, checkBalance]
  split
  · next h => simp [h]
  · next h => simp [h, fail]

/-- Neither the lexer nor the signs touch a parenthesis. -/
theorem balancedTokens_of_fuseSigns (htokens : tokenize text = .ok tokens)
    (hfused : fuseSigns tokens = .ok m) : balancedTokens 0 m = balanced 0 text.toList := by
  rw [(fused_of_fuseFrom hfused).balancedTokens_eq, ← scan_of_tokenize htokens, balanced_scan]

/-! ### What the order is read as -/

theorem evaluate_render {out : List Token} (hspelled : ∀ t ∈ out, t.Spelled) :
    evaluate (render out) = evaluateItems (out.map Token.text) := by
  rw [evaluate, words_render hspelled]

theorem ofTokens_eq_ok {out : List Token} :
    ofTokens m = .ok out ↔ reorder [] m = .ok out ∧ out ≠ [] := by
  rw [ofTokens]
  constructor
  · intro h
    obtain ⟨order, horder, h⟩ := Outcome.bind_eq_ok.mp h
    cases order with
    | nil => cases h
    | cons t order =>
      cases h
      exact ⟨horder, by simp⟩
  · intro h
    obtain ⟨horder, hne⟩ := h
    rw [horder, Outcome.ok_bind]
    cases out with
    | nil => exact absurd rfl hne
    | cons t out => rfl

/-- Whatever is computed is in the safe range. -/
theorem inSafeRange_of_calculate {x : Float} (h : calculate text = .ok x) :
    inSafeRange x = true := by
  obtain ⟨polish, -, hvalue⟩ := Outcome.bind_eq_ok.mp h
  obtain ⟨tree, -, hvalue⟩ := evaluateItems_eq_ok.mp hvalue
  exact tree.inSafeRange_value hvalue

/-! ### Kinds of failures -/

open Outcome

theorem checkAlphabet_failsOnly (text : String) :
    FailsOnly [.emptyExpression, .invalidExpression] (checkAlphabet text) := by
  rw [checkAlphabet]
  split
  · exact .fail (by decide)
  · split
    · exact .ok _ ()
    · exact .fail (by decide)

theorem checkParentheses_failsOnly (text : String) :
    FailsOnly [.mismatchedParentheses] (checkParentheses text) := by
  rw [checkParentheses, checkBalance]
  split
  · exact .ok _ ()
  · exact .fail (by decide)

theorem tokenize_failsOnly (text : String) : FailsOnly [.invalidExpression] (tokenize text) := by
  rw [tokenize]
  split
  · exact .fail (by decide)
  · exact .ok _ _

theorem fuseFrom_failsOnly (expected : Bool) (ts : List Token) :
    FailsOnly [.invalidNumber] (fuseFrom expected ts) := by
  induction expected, ts using fuseFrom.induct with
  | case1 expected => exact .ok _ _
  | case2 expected t => exact .ok _ _
  | case3 expected t next rest hsign hfinite ih =>
    rw [fuseFrom, if_pos hsign, if_pos hfinite]
    exact ih.map _
  | case4 expected t next rest hsign hfinite =>
    rw [fuseFrom, if_pos hsign, if_neg hfinite]
    exact .fail (by decide)
  | case5 expected t next rest hsign ih =>
    rw [fuseFrom, if_neg hsign]
    exact ih.map _

end Reckoner
