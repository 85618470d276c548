/-
  Reckoner/Proofs/Rejection.lean
  ==============================
  **What the calculator refuses.**  Past the two checks a text is a row of fused
  tokens, and only the counts of `Reckoner/Proofs/OperandCount.lean` decide
  whether it has a value:

    * where no two operands stand side by side, the tokens that have one are
      phrases of the grammar, and for all others it is known which failure is
      reported (`grammar_sound`);
    * where two operands do, some rows have a value, namely those whose reverse
      Polish order reads as a tree all the same (`juxtaposed_fails_iff`).
-/
import Reckoner.Proofs.OperandCount
import Reckoner.Proofs.Parentheses
import Reckoner.Proofs.Stages

namespace Reckoner

open Reckoner.Number ReversePolish

/-! ### Texts -/

section Texts

variable {text : String} {tokens m : List Token}

/-- Tokens of parentheses only. -/
def OnlyParentheses (ts : List Token) : Prop :=
  ∀ t ∈ ts, t.kind = .leftParen ∨ t.kind = .rightParen

theorem order_eq_nil_iff {out : List Token} (hspelled : ∀ t ∈ m, t.Spelled)
    (horder : Reorders (.chain 0) m out) : out = [] ↔ OnlyParentheses m := by
  rw [← List.length_eq_zero_iff, horder.perm.length_eq, List.length_eq_zero_iff,
    List.filter_eq_nil_iff]
  refine forall₂_congr fun t ht => ?_
  cases hspelled t ht with
  | number l => simp [ordered, Token.isNumber]
  | operator op => simp [ordered, Token.isOperator]
  | opening => simp [ordered, Token.isNumber, Token.isOperator]
  | closing => simp [ordered, Token.isNumber, Token.isOperator]

/-- A reverse Polish order of well spelled tokens whose operands are in range. -/
structure Order (m out : List Token) : Prop where
  reorders : Reorders (.chain 0) m out
  spelled : ∀ t ∈ out, t.Spelled
  kinds : ∀ t ∈ out, ordered t = true
  operands : Operands out

theorem Order.of_reorder (hspelled : ∀ t ∈ m, t.Spelled) {out : List Token}
    (hout : reorder [] m = .ok out) : Order m out := by
  have hreorders := (reorder_eq_ok_iff.mp hout).1
  have hoperands := operands_of_reorder hout
  refine ⟨hreorders, fun t ht => hspelled t (hreorders.mem ht), fun t ht => ?_,
    fun t ht hk => hoperands t (hreorders.mem ht) hk⟩
  exact List.of_mem_filter (hreorders.perm.mem_iff.mp ht)

theorem exists_order (hparentheses : checkParentheses text = .ok ())
    (htokens : tokenize text = .ok tokens) (hfused : fuseSigns tokens = .ok m)
    (hoperands : Operands m) : ∃ out, reorder [] m = .ok out ∧ Order m out := by
  have hspelled := spelled_of_fuseSigns htokens hfused
  have hbalanced : balancedTokens (openings []) m = true := by
    rw [openings_nil, balancedTokens_of_fuseSigns htokens hfused]
    exact checkParentheses_eq_ok.mp hparentheses
  obtain ⟨out, hout⟩ := (exists_reorder hspelled hoperands).mpr hbalanced
  exact ⟨out, hout, .of_reorder hspelled hout⟩

theorem calculate_of_order (halphabet : checkAlphabet text = .ok ())
    (hparentheses : checkParentheses text = .ok ()) (htokens : tokenize text = .ok tokens)
    (hfused : fuseSigns tokens = .ok m) {out : List Token} (hout : reorder [] m = .ok out)
    (horder : Order m out) (hne : out ≠ []) :
    ofTokens m = .ok out ∧ calculate text = evaluateItems (out.map Token.text) := by
  have hof : ofTokens m = .ok out := ofTokens_eq_ok.mpr ⟨hout, hne⟩
  refine ⟨hof, ?_⟩
  rw [calculate_eq halphabet hparentheses htokens hfused, textOf, hof, Outcome.map_ok,
    Outcome.ok_bind, evaluate_render horder.spelled]

end Texts

/-! ### Orders -/

/-- An order that has a value has one operand more than operators. -/
theorem Order.surplus_of_value {m out : List Token} (horder : Order m out) {x : Float}
    (h : evaluateItems (out.map Token.text) = .ok x) : surplus m = 1 := by
  rw [evaluateItems] at h
  obtain ⟨stack, hstack, h⟩ := Outcome.bind_eq_ok.mp h
  have hone : stack.length = 1 := by
    split at h
    · rfl
    · cases h
  rcases run_tokens horder.spelled horder.kinds horder.operands [] with
    ⟨stack', hrun, hheight⟩ | ⟨hrun, -⟩ | ⟨before, op, after, kind, -, -, hrun⟩
  · rw [hstack] at hrun
    cases hrun
    obtain ⟨hlast, -⟩ := heightAfter_eq_some horder.kinds hheight
    rw [horder.reorders.surplus_eq, List.length_nil] at hlast
    omega
  · rw [hstack] at hrun
    cases hrun
  · rw [hstack] at hrun
    cases hrun

/-- **How the evaluation of an order fails**: operands are left over, an operator is
    short of one, or an operation has no result. -/
theorem Order.failure_cases {m out : List Token} (horder : Order m out) {failure : Failure}
    (h : evaluateItems (out.map Token.text) = .error failure) :
    (failure = .of .invalidExpression ∧
      ∃ last, heightAfter 0 out = some last ∧ last ≠ 1) ∨
    failure = .of .missingOperand ∨
    ∃ before op after kind, out = before ++ (Leaf.operator op).token :: after ∧
      FailsAt [] before op kind ∧ failure = .of kind := by
  rw [evaluateItems] at h
  rcases run_tokens horder.spelled horder.kinds horder.operands [] with
    ⟨stack, hrun, hheight⟩ | ⟨hrun, -⟩ | ⟨before, op, after, kind, hout, hfails, hrun⟩
  · rw [hrun, Outcome.ok_bind] at h
    split at h
    · cases h
    · next hleft =>
      cases h
      refine Or.inl ⟨rfl, stack.length, hheight, fun hone => ?_⟩
      obtain ⟨x, hx⟩ := List.length_eq_one_iff.mp hone
      exact hleft x hx
  · rw [hrun] at h
    cases h
    exact Or.inr (Or.inl rfl)
  · rw [hrun] at h
    cases h
    exact Or.inr (Or.inr ⟨before, op, after, kind, hout, hfails, rfl⟩)

/-- An order that leaves no operand over fails at an operator or not at all. -/
theorem Order.kind_of_failure {m out : List Token} (horder : Order m out) (hne : out ≠ [])
    (hsurplus : surplus m ≤ 1) {failure : Failure}
    (h : evaluateItems (out.map Token.text) = .error failure) :
    failure.kind = .missingOperand ∨ Arithmetic failure.kind := by
  rcases horder.failure_cases h with
    ⟨-, last, hheight, hmore⟩ | rfl | ⟨before, op, after, kind, -, hfails, rfl⟩
  · obtain ⟨hlast, hpos⟩ := heightAfter_eq_some horder.kinds hheight
    have hpos := hpos hne
    rw [horder.reorders.surplus_eq] at hlast
    omega
  · exact Or.inl rfl
  · obtain ⟨a, b, below, -, -, harithmetic⟩ := hfails
    exact Or.inr harithmetic

/-- What becomes of an order with no operand to spare: some operator is short of an
    operand, and unless an operation before it has failed that is the failure. -/
theorem Order.shortage {m out : List Token} (horder : Order m out) (hne : out ≠ [])
    (hsurplus : surplus m ≤ 0) :
    ∃ before op after, out = before ++ op :: after ∧ op.kind = .operator ∧ Short 0 before ∧
      ((∃ stack, run [] (before.map Token.text) = .ok stack) ∧
          evaluateItems (out.map Token.text) = fail .missingOperand ∨
        ∃ earlier operation later kind, before = earlier ++ (Leaf.operator operation).token :: later ∧
          FailsAt [] earlier operation kind ∧ evaluateItems (out.map Token.text) = fail kind) := by
  have hheight : heightAfter 0 out = none := by
    cases hheight : heightAfter 0 out with
    | none => rfl
    | some last =>
      obtain ⟨hlast, hpos⟩ := heightAfter_eq_some horder.kinds hheight
      have hpos := hpos hne
      rw [horder.reorders.surplus_eq] at hlast
      omega
  obtain ⟨before, op, after, rfl, hop, hshort⟩ := exists_short hheight
  refine ⟨before, op, after, rfl, hop, hshort, ?_⟩
  have hspelled : ∀ t ∈ before, t.Spelled := fun t ht => horder.spelled t (by simp [ht])
  have hordered : ∀ t ∈ before, ordered t = true := fun t ht => horder.kinds t (by simp [ht])
  have hoperands : Operands before := fun t ht => horder.operands t (by simp [ht])
  obtain ⟨found, hfound, hlt⟩ := hshort
  rw [evaluateItems, List.map_append, run_append]
  rcases run_tokens hspelled hordered hoperands [] with
    ⟨stack, hrun, hheight⟩ | ⟨-, hnone⟩ | ⟨earlier, operation, later, kind, heq, hfails, hrun⟩
  · rw [List.length_nil, hfound] at hheight
    cases hheight
    obtain ⟨operator, rfl⟩ := (horder.spelled op (by simp)).operator_of_kind hop
    have hstep : step stack (Leaf.operator operator).token.text = fail .missingOperand :=
      step_operator_short hlt operator
    refine Or.inl ⟨⟨stack, hrun⟩, ?_⟩
    rw [hrun, Outcome.ok_bind, List.map_cons, run_cons, hstep]
    rfl
  · rw [List.length_nil, hfound] at hnone
    cases hnone
  · refine Or.inr ⟨earlier, operation, later, kind, heq, hfails, ?_⟩
    rw [hrun]
    rfl

/-! ### Without operands side by side -/

/-- **Only formulas have a value** where no two operands stand side by side.  What
    is no formula fails: for want of any operand if it holds parentheses only, else
    at the first operator in reverse Polish order that is short of an operand, where
    no operation before it has failed.  That operands are left over never
    happens. -/
theorem grammar_sound {text : String} {tokens m : List Token}
    (halphabet : checkAlphabet text = .ok ()) (hparentheses : checkParentheses text = .ok ())
    (htokens : tokenize text = .ok tokens) (hfused : fuseSigns tokens = .ok m)
    (hrange : ∀ t ∈ m, t.isNumber = true → ∃ x, readFloat? t.text = some x ∧ inSafeRange x = true)
    (hapart : ¬ Juxtaposed m) :
    ((∃ x, calculate text = .ok x) → Derives .sum m) ∧
    (OnlyParentheses m → calculate text = fail .emptyExpression) ∧
    (¬ Derives .sum m → ¬ OnlyParentheses m →
      ∃ before op after, ofTokens m = .ok (before ++ op :: after) ∧ op.kind = .operator ∧
        Short 0 before ∧
        ((∃ stack, run [] (before.map Token.text) = .ok stack) ∧
            calculate text = fail .missingOperand ∨
          ∃ earlier operation later kind,
            before = earlier ++ (Leaf.operator operation).token :: later ∧
            FailsAt [] earlier operation kind ∧ calculate text = fail kind)) ∧
    ∀ failure, calculate text = .error failure → failure.kind ≠ .invalidExpression := by
  have hoperands : Operands m := by
    intro t ht hk
    obtain ⟨x, hx⟩ := hrange t ht (by simp [Token.isNumber, hk])
    exact ⟨x, checkOperand_eq_ok.mpr hx⟩
  have hspelled := spelled_of_fuseSigns htokens hfused
  obtain ⟨out, hout, horder⟩ := exists_order hparentheses htokens hfused hoperands
  have hempty := order_eq_nil_iff hspelled horder.reorders
  obtain ⟨hle, hderives⟩ := horder.reorders.surplus_le hspelled hapart
  have hnothing : OnlyParentheses m → calculate text = fail .emptyExpression := by
    intro honly
    rw [hempty.mpr honly] at hout
    rw [calculate_eq halphabet hparentheses htokens hfused, textOf, ofTokens, hout]
    rfl
  have hresult := fun hne : out ≠ [] =>
    calculate_of_order halphabet hparentheses htokens hfused hout horder hne
  refine ⟨?_, hnothing, ?_, ?_⟩
  · rintro ⟨x, hx⟩
    by_cases hne : out = []
    · rw [hnothing (hempty.mp hne)] at hx
      cases hx
    · rw [(hresult hne).2] at hx
      exact hderives (horder.surplus_of_value hx)
  · intro hnot hsome
    have hne : out ≠ [] := fun hnil => hsome (hempty.mp hnil)
    have hzero : surplus m ≤ 0 := by
      have : surplus m ≠ 1 := fun hone => hnot (hderives hone)
      omega
    obtain ⟨hof, hvalue⟩ := hresult hne
    obtain ⟨before, op, after, rfl, hop, hshort, hfailure⟩ := horder.shortage hne hzero
    rw [hvalue]
    exact ⟨before, op, after, hof, hop, hshort, hfailure⟩
  · intro failure hfailure
    by_cases hne : out = []
    · rw [hnothing (hempty.mp hne)] at hfailure
      cases hfailure
      decide
    · rw [(hresult hne).2] at hfailure
      rcases horder.kind_of_failure hne hle hfailure with hk | hk | hk | hk <;> rw [hk] <;> decide

/-- In `1+(2*)` the `*` takes both operands and leaves the `+` short of one. -/
def starved : List Token :=
  [⟨.number, "1"⟩, ⟨.operator, "+"⟩, ⟨.leftParen, "("⟩, ⟨.number, "2"⟩, ⟨.operator, "*"⟩,
    ⟨.rightParen, ")"⟩]

theorem grammar_sound_starved :
    (¬ ∃ x, calculate "1+(2*)" = .ok x) ∧
      ∀ failure, calculate "1+(2*)" = .error failure → failure.kind ≠ .invalidExpression := by
  have hrange : ∀ t ∈ starved, t.isNumber = true →
      ∃ x, readFloat? t.text = some x ∧ inSafeRange x = true := by
    have hread : ∀ t ∈ starved, t.isNumber = true →
        (readFloat? t.text).any inSafeRange = true := by decide +kernel
    intro t ht hnumber
    exact (Option.any_eq_true _ _).mp (hread t ht hnumber)
  have hapart : ¬ Juxtaposed starved := by decide
  have hnot : ¬ Derives .sum starved := by
    intro hderives
    have := hderives.surplus_eq
    revert this
    decide
  obtain ⟨hvalue, -, -, hkind⟩ := @grammar_sound "1+(2*)" starved starved (by decide +kernel)
    (by decide +kernel) (by decide +kernel) (by decide +kernel) hrange hapart
  exact ⟨fun hok => hnot (hvalue hok), hkind⟩

/-! ### With operands side by side -/

/-- The order of the tokens reads as a tree, and the tree has a value. -/
def HasValue (m : List Token) (x : Float) : Prop :=
  Operands m ∧ ∃ (out : List Token) (tree : Tree),
    Reorders (.chain 0) m out ∧ tree.items = out.map Token.text ∧ tree.value = .ok x

/-- **Which texts have a value, and which value**: past the checks, those whose order
    reads as a tree that has it. -/
theorem calculate_eq_ok {text : String} {tokens m : List Token}
    (halphabet : checkAlphabet text = .ok ()) (hparentheses : checkParentheses text = .ok ())
    (htokens : tokenize text = .ok tokens) (hfused : fuseSigns tokens = .ok m) {x : Float} :
    calculate text = .ok x ↔ HasValue m x := by
  have hspelled := spelled_of_fuseSigns htokens hfused
  rw [calculate_eq halphabet hparentheses htokens hfused, textOf, Outcome.map_bind]
  constructor
  · intro h
    obtain ⟨out, hout, h⟩ := Outcome.bind_eq_ok.mp h
    obtain ⟨hreorders, hoperands⟩ := reorder_eq_ok_iff.mp (ofTokens_eq_ok.mp hout).1
    rw [evaluate_render fun t ht => hspelled t (hreorders.mem ht)] at h
    obtain ⟨tree, hitems, hvalue⟩ := evaluateItems_eq_ok.mp h
    exact ⟨hoperands, out, tree, hreorders, hitems, hvalue⟩
  · rintro ⟨hoperands, out, tree, hreorders, hitems, hvalue⟩
    have hne : out ≠ [] := by
      rintro rfl
      exact tree.items_ne_nil hitems
    have hout := ofTokens_eq_ok.mpr ⟨reorder_eq_ok_iff.mpr ⟨hreorders, hoperands⟩, hne⟩
    rw [hout, Outcome.ok_bind, evaluate_render fun t ht => hspelled t (hreorders.mem ht)]
    exact evaluateItems_eq_ok.mpr ⟨tree, hitems, hvalue⟩

/-- **When operands side by side are refused.**  They are unless the order of the
    tokens reads as a tree that has a value all the same, and that takes an operator
    out of its place: where every operand is there they are always refused. -/
theorem juxtaposed_fails_iff {text : String} {tokens m : List Token}
    (halphabet : checkAlphabet text = .ok ()) (hparentheses : checkParentheses text = .ok ())
    (htokens : tokenize text = .ok tokens) (hfused : fuseSigns tokens = .ok m)
    (hjuxtaposed : Juxtaposed m) :
    ((∃ failure, calculate text = .error failure) ↔ ¬ ∃ x, HasValue m x) ∧
      (Supplied true m → ∃ failure, calculate text = .error failure) := by
  have hiff : (∃ failure, calculate text = .error failure) ↔ ¬ ∃ x, HasValue m x := by
    simp only [← calculate_eq_ok halphabet hparentheses htokens hfused]
    cases calculate text with
    | ok x => simp
    | error failure => simp
  refine ⟨hiff, fun hsupplied => hiff.mpr ?_⟩
  rintro ⟨x, hvalue⟩
  obtain ⟨out, hout, horder⟩ := exists_order hparentheses htokens hfused hvalue.1
  have hspare : 2 ≤ surplus m :=
    hsupplied.lt_surplus (spelled_of_fuseSigns htokens hfused) hjuxtaposed
  obtain ⟨-, out', tree, hreorders, hitems, hx⟩ := hvalue
  obtain rfl : out' = out := by
    have := reorder_eq_ok_iff.mpr ⟨hreorders, operands_of_reorder hout⟩
    rw [hout] at this
    cases this
    rfl
  have hone := horder.surplus_of_value (evaluateItems_eq_ok.mpr ⟨tree, hitems, hx⟩)
  omega

/-- Two operands in front of their operator stand side by side and have a value. -/
theorem juxtaposed_has_value :
    ∃ m, checkAlphabet "1 2 +" = .ok () ∧ checkParentheses "1 2 +" = .ok () ∧
      tokenize "1 2 +" = .ok m ∧ fuseSigns m = .ok m ∧ Juxtaposed m ∧
      calculate "1 2 +" = .ok 3 := by
  refine ⟨[⟨.number, "1"⟩, ⟨.number, "2"⟩, ⟨.operator, "+"⟩], ?_⟩
  decide +kernel

theorem juxtaposed_fails_iff_two_numbers : ∃ failure, calculate "2 3" = .error failure := by
  have hsupplied : Supplied true [⟨.number, "2"⟩, ⟨.number, "3"⟩] := by
    exact ⟨fun _ => rfl, nofun, rfl⟩
  obtain ⟨-, hrefused⟩ := @juxtaposed_fails_iff "2 3" [⟨.number, "2"⟩, ⟨.number, "3"⟩]
    [⟨.number, "2"⟩, ⟨.number, "3"⟩] (by decide +kernel) (by decide +kernel) (by decide +kernel)
    (by decide +kernel) (by decide)
  exact hrefused hsupplied

end Reckoner
