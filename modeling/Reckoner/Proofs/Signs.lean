/-
  Reckoner/Proofs/Signs.lean
  ==========================
  **Fusing signs.**  What the pass over signs can do to a list of tokens is said
  once, as a relation (`Fused`): it keeps a token, or it turns a minus and the
  number behind it into one number.  So parentheses stay where they are and every
  token stays well spelled.

  Of a formula the pass makes what the grammar says (`fuseFrom_formula`): a minus
  between two operands stays, and a minus in front of a literal joins it.
-/
import Reckoner.Token.Sign
import Reckoner.Proofs.Lexing
import Reckoner.Proofs.Outcome

namespace Reckoner

/-! ### Spelling -/

/-- A token whose text is one that its kind asks for. -/
inductive Token.Spelled : Token → Prop where
  | number (l : Literal) : Spelled ⟨.number, l.text⟩
  | operator (op : Operator) : Spelled ⟨.operator, op.symbol⟩
  | opening : Spelled ⟨.leftParen, "("⟩
  | closing : Spelled ⟨.rightParen, ")"⟩

theorem Lexeme.text_eq (d : Lexeme) : d.text = (Literal.mk false d).text := by
  simp [text, Literal.text, Literal.chars]

theorem Lexeme.minus_append_text (d : Lexeme) : "-" ++ d.text = (Literal.mk true d).text := by
  rw [← String.toList_inj]
  simp [text, Literal.text, Literal.chars]

theorem Leaf.token_spelled (leaf : Leaf) : leaf.token.Spelled := by
  cases leaf with
  | number d =>
    rw [Leaf.token, d.text_eq]
    exact .number _
  | operator op => exact .operator op
  | opening => exact .opening
  | closing => exact .closing

theorem negated_spelled (d : Lexeme) : (Leaf.number d).token.negated.Spelled := by
  rw [Leaf.token, Token.negated, d.minus_append_text]
  exact .number _

/-! ### What the pass can do -/

theorem Token.expectsOperand_of_isNumber {t : Token} (h : t.isNumber = true) :
    t.expectsOperand = false := by
  have hk : t.kind = .number := by simpa [Token.isNumber] using h
  simp [Token.expectsOperand, Token.isOperator, hk]

theorem Token.isMinus_of_isNumber {t : Token} (h : t.isNumber = true) : t.isMinus = false := by
  have hk : t.kind = .number := by simpa [Token.isNumber] using h
  simp [Token.isMinus, Token.isOperator, hk]

/-- Tokens and what is left of them once some signs are fused. -/
inductive Fused : List Token → List Token → Prop where
  | nil : Fused [] []
  | keep (t : Token) {ts ms : List Token} : Fused ts ms → Fused (t :: ts) (t :: ms)
  | sign {minus n : Token} {ts ms : List Token} :
      minus.isMinus = true → n.isNumber = true → Fused ts ms →
      Fused (minus :: n :: ts) (n.negated :: ms)

theorem fused_of_fuseFrom {expected : Bool} {ts ms : List Token}
    (h : fuseFrom expected ts = .ok ms) : Fused ts ms := by
  induction expected, ts using fuseFrom.induct generalizing ms with
  | case1 expected => cases h; exact .nil
  | case2 expected t => cases h; exact .keep t .nil
  | case3 expected t next rest hsign hfinite ih =>
    rw [fuseFrom, if_pos hsign, if_pos hfinite] at h
    obtain ⟨ms', hms', rfl⟩ := Outcome.map_eq_ok.mp h
    simp only [Bool.and_eq_true] at hsign
    exact .sign hsign.1.2 hsign.2 (ih hms')
  | case4 expected t next rest hsign hfinite =>
    rw [fuseFrom, if_pos hsign, if_neg hfinite] at h
    cases h
  | case5 expected t next rest hsign ih =>
    rw [fuseFrom, if_neg hsign] at h
    obtain ⟨ms', hms', rfl⟩ := Outcome.map_eq_ok.mp h
    exact .keep t (ih hms')

theorem Fused.spelled {ts ms : List Token} (h : Fused ts ms)
    (hts : ∀ t ∈ ts, ∃ leaf : Leaf, t = leaf.token) : ∀ t ∈ ms, t.Spelled := by
  induction h with
  | nil => intro t ht; cases ht
  | @keep t ts ms _ ih =>
    intro m hm
    rcases List.mem_cons.mp hm with rfl | hm
    · obtain ⟨leaf, hleaf⟩ := hts m (by simp)
      rw [hleaf]
      exact leaf.token_spelled
    · exact ih (fun t ht => hts t (by simp [ht])) m hm
  | @sign minus n ts ms _ hn _ ih =>
    intro m hm
    rcases List.mem_cons.mp hm with rfl | hm
    · obtain ⟨leaf, rfl⟩ := hts n (by simp)
      cases leaf with
      | number d => exact negated_spelled d
      | operator op => cases hn
      | opening => cases hn
      | closing => cases hn
    · exact ih (fun t ht => hts t (by simp [ht])) m hm

theorem Fused.balancedTokens_eq {ts ms : List Token} (h : Fused ts ms) (depth : Nat) :
    balancedTokens depth ms = balancedTokens depth ts := by
  induction h generalizing depth with
  | nil => rfl
  | keep t _ ih =>
    cases hk : t.kind <;> simp only [balancedTokens, hk, ih]
  | @sign minus n ts ms hminus hn _ ih =>
    have hop : minus.kind = .operator := by
      simp only [Token.isMinus, Token.isOperator, Bool.and_eq_true, beq_iff_eq] at hminus
      exact hminus.1
    have hnum : n.kind = .number := by simpa [Token.isNumber] using hn
    have hneg : n.negated.kind = .number := rfl
    simp only [balancedTokens, hop, hnum, hneg, ih]

/-! ### Formulas -/

/-- The token of a literal, its sign included. -/
def Literal.token (l : Literal) : Token := ⟨.number, l.text⟩

namespace Formula

/-- The tokens of a tree, from left to right, every literal in one. -/
def tokens : {l : Level} → Formula l → List Token
  | _, .literal l => [l.token]
  | _, .group inner => Leaf.opening.token :: (inner.tokens ++ [Leaf.closing.token])
  | _, .factor f => f.tokens
  | _, .term t => t.tokens
  | _, .operation op left right => left.tokens ++ (Leaf.operator op).token :: right.tokens

end Formula

theorem fuseFrom_keep {expected : Bool} {t : Token}
    (h : (expected && t.isMinus) = false) (rest : List Token) :
    fuseFrom expected (t :: rest) = (t :: ·) <$> fuseFrom t.expectsOperand rest := by
  cases rest with
  | nil => rfl
  | cons next rest => rw [fuseFrom, h, Bool.false_and, if_neg (by simp)]

theorem fuseFrom_literal {l : Literal} (h : l.negative = true → l.lexeme.value.isFinite = true)
    (rest : List Token) :
    fuseFrom true (l.leaves.map Leaf.token ++ rest) = (l.token :: ·) <$> fuseFrom false rest := by
  obtain ⟨negative, d⟩ := l
  cases negative with
  | false =>
    have hleaves : (Literal.mk false d).leaves.map Leaf.token = [(Literal.mk false d).token] := by
      simp [Literal.leaves, Leaf.token, Literal.token, d.text_eq]
    rw [hleaves]
    exact fuseFrom_keep (by rfl) rest
  | true =>
    have hneg : (Leaf.number d).token.negated = (Literal.mk true d).token := by
      simp [Leaf.token, Token.negated, Literal.token, d.minus_append_text]
    have hleaves : (Literal.mk true d).leaves.map Leaf.token =
        [(Leaf.operator .subtract).token, (Leaf.number d).token] := rfl
    have hfinite : isFiniteNumeral (Literal.mk true d).token.text = true :=
      (isFiniteNumeral_literal _).trans (h rfl)
    rw [hleaves, List.cons_append, List.cons_append, List.nil_append, fuseFrom, hneg, hfinite]
    rfl

/-- **A formula's signs are fused as the grammar has it**, in front of anything. -/
theorem fuseFrom_formula {level : Level} (e : Formula level)
    (hsafe : ∀ l ∈ e.literals, Number.inSafeRange l.value = true) (rest : List Token) :
    fuseFrom true (e.leaves.map Leaf.token ++ rest) = (e.tokens ++ ·) <$> fuseFrom false rest := by
  induction e generalizing rest with
  | literal l =>
    have hfinite := Number.isFinite_of_inSafeRange (hsafe l (by simp [Formula.literals]))
    exact fuseFrom_literal (fun _ => l.isFinite_value ▸ hfinite) rest
  | group inner ih =>
    have hsplit : (Formula.group inner).leaves.map Leaf.token ++ rest =
        Leaf.opening.token :: (inner.leaves.map Leaf.token ++ (Leaf.closing.token :: rest)) := by
      simp [Formula.leaves]
    have hopen : (true && Leaf.opening.token.isMinus) = false := rfl
    have hclose : (false && Leaf.closing.token.isMinus) = false := rfl
    rw [hsplit, fuseFrom_keep hopen]
    show _ <$> fuseFrom true _ = _
    rw [ih hsafe, fuseFrom_keep hclose]
    show _ <$> (_ <$> (_ <$> fuseFrom false rest)) = _
    simp only [Outcome.cons_map, Outcome.append_map_append_map]
    rfl
  | factor f ih => exact ih hsafe rest
  | term t ih => exact ih hsafe rest
  | operation op left right ihl ihr =>
    have hsplit : (Formula.operation op left right).leaves.map Leaf.token ++ rest =
        left.leaves.map Leaf.token ++
          ((Leaf.operator op).token :: (right.leaves.map Leaf.token ++ rest)) := by
      simp [Formula.leaves]
    have hop : (false && (Leaf.operator op).token.isMinus) = false := rfl
    obtain ⟨hl, hr⟩ := List.forall_mem_append.mp hsafe
    rw [hsplit, ihl hl, fuseFrom_keep hop]
    show _ <$> (_ <$> fuseFrom true _) = _
    rw [ihr hr]
    simp only [Outcome.cons_map, Outcome.append_map_append_map]
    simp [Formula.tokens]

end Reckoner
