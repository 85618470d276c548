/-
  Reckoner/Proofs/Negation.lean
  =============================
  **Literals under a sign.**  A double and its negative are finite together and in
  the safe range together, so a sign should make no difference to whether a literal
  is refused, nor to the kind of failure.  It makes none unless the literal is so
  large that the double nearest to it is infinite: the pass over signs refuses such
  a literal as an invalid number, and without a sign the converter refuses it as
  out of range.

  Which texts fail for an invalid number is told by their tokens
  (`SignsTooLarge`); what becomes of a literal, with a sign and without, by its
  double (`calculate_literal`).
-/
import Reckoner.Proofs.Correctness
import Reckoner.Proofs.Interchange

namespace Reckoner

open Reckoner.Number Reckoner.Text ReversePolish Outcome

variable {text : String}

/-! ### Which texts fail for an invalid number -/

/-- Somewhere a sign stands before a number to which no finite double is nearest; the
    flag tells whether an operand is expected at the start. -/
inductive SignsTooLarge : Bool → List Token → Prop where
  | here {expected : Bool} {minus n : Token} {rest : List Token} :
      expected = true → minus.isMinus = true → n.isNumber = true →
      isFiniteNumeral n.text = false → SignsTooLarge expected (minus :: n :: rest)
  | later {expected : Bool} {t : Token} {rest : List Token} :
      SignsTooLarge t.expectsOperand rest → SignsTooLarge expected (t :: rest)

theorem isFiniteNumeral_negated {n : Token} (h : ∃ leaf : Leaf, n = leaf.token)
    (hn : n.isNumber = true) : isFiniteNumeral n.negated.text = isFiniteNumeral n.text := by
  obtain ⟨leaf, rfl⟩ := h
  cases leaf with
  | number d =>
    show isFiniteNumeral ("-" ++ d.text) = isFiniteNumeral d.text
    rw [d.minus_append_text, d.text_eq, isFiniteNumeral_literal, isFiniteNumeral_literal]
  | operator op => cases hn
  | opening => cases hn
  | closing => cases hn

/-- **The pass over signs fails** at a sign before a number that is too large, and
    nowhere else. -/
theorem fuseFrom_fails_iff {expected : Bool} {ts : List Token}
    (hts : ∀ t ∈ ts, ∃ leaf : Leaf, t = leaf.token) :
    (∃ failure, fuseFrom expected ts = .error failure) ↔ SignsTooLarge expected ts := by
  induction expected, ts using fuseFrom.induct with
  | case1 expected =>
    constructor
    · rintro ⟨failure, h⟩
      cases h
    · intro h
      cases h
  | case2 expected t =>
    constructor
    · rintro ⟨failure, h⟩
      cases h
    · intro h
      rcases h with _ | h
      cases h
  | case3 expected t next rest hsign hfinite ih =>
    -- The number of a fused pair is no sign of its own, so one has to look behind it.
    have hnumber : next.isNumber = true := (Bool.and_eq_true_iff.mp hsign).2
    have hnext := next.expectsOperand_of_isNumber hnumber
    rw [fuseFrom, if_pos hsign, if_pos hfinite]
    simp only [map_eq_error]
    rw [ih fun t ht => hts t (by simp [ht])]
    constructor
    · intro h
      exact .later (.later (hnext ▸ h))
    · intro h
      rcases h with ⟨-, -, hn, hlarge⟩ | h
      · rw [isFiniteNumeral_negated (hts next (by simp)) hn, hlarge] at hfinite
        cases hfinite
      · rcases h with ⟨-, hminus, -, -⟩ | h
        · rw [Token.isMinus_of_isNumber hnumber] at hminus
          cases hminus
        · exact hnext ▸ h
  | case4 expected t next rest hsign hlarge =>
    rw [fuseFrom, if_pos hsign, if_neg hlarge]
    obtain ⟨hsigned, hnumber⟩ := Bool.and_eq_true_iff.mp hsign
    obtain ⟨hexpected, hminus⟩ := Bool.and_eq_true_iff.mp hsigned
    rw [isFiniteNumeral_negated (hts next (by simp)) hnumber, Bool.not_eq_true] at hlarge
    exact ⟨fun _ => .here hexpected hminus hnumber hlarge, fun _ => ⟨_, rfl⟩⟩
  | case5 expected t next rest hsign ih =>
    rw [fuseFrom, if_neg hsign]
    simp only [map_eq_error]
    rw [ih fun t ht => hts t (by simp [ht])]
    constructor
    · exact .later
    · intro h
      rcases h with ⟨hexpected, hminus, hn, -⟩ | h
      · exact absurd (by simp [hexpected, hminus, hn]) hsign
      · exact h

theorem invalidNumber_of_signsTooLarge {tokens : List Token}
    (halphabet : checkAlphabet text = .ok ()) (hparentheses : checkParentheses text = .ok ())
    (htokens : tokenize text = .ok tokens) (hlarge : SignsTooLarge true tokens) :
    calculate text = fail .invalidNumber := by
  obtain ⟨failure, hfailure⟩ := (fuseFrom_fails_iff (leaf_of_tokenize htokens)).mpr hlarge
  obtain ⟨kind, hkind, rfl⟩ := fuseFrom_failsOnly true tokens failure hfailure
  obtain rfl := List.mem_singleton.mp hkind
  rw [calculate, toReversePolish, halphabet, hparentheses, htokens]
  simp only [ok_bind, fuseSigns, hfailure]
  rfl

/-- **Which texts fail for an invalid number**: those past both checks in whose tokens
    a sign stands before a number that is too large. -/
theorem calculate_invalidNumber_iff (text : String) :
    (∃ failure, calculate text = .error failure ∧ failure.kind = .invalidNumber) ↔
      checkAlphabet text = .ok () ∧ checkParentheses text = .ok () ∧
        ∃ tokens, tokenize text = .ok tokens ∧ SignsTooLarge true tokens := by
  constructor
  · rintro ⟨failure, h, hkind⟩
    -- No stage but the pass over signs gives a failure of this kind.
    rw [calculate] at h
    cases hpolish : toReversePolish text with
    | ok polish =>
      rw [hpolish] at h
      exact absurd ((evaluate_failsOnly hpolish).kind_mem h) (by rw [hkind]; decide)
    | error failure' =>
      rw [hpolish] at h
      cases h
      rw [toReversePolish] at hpolish
      obtain ⟨_, halphabet, h⟩ :=
        ((checkAlphabet_failsOnly text).bind_eq_error (by rw [hkind]; decide)).mp hpolish
      obtain ⟨_, hparentheses, h⟩ :=
        ((checkParentheses_failsOnly text).bind_eq_error (by rw [hkind]; decide)).mp h
      obtain ⟨tokens, htokens, h⟩ :=
        ((tokenize_failsOnly text).bind_eq_error (by rw [hkind]; decide)).mp h
      refine ⟨halphabet, hparentheses, tokens, htokens, ?_⟩
      rw [← fuseFrom_fails_iff (leaf_of_tokenize htokens)]
      cases hfused : fuseSigns tokens with
      | error failure' => exact ⟨failure', hfused⟩
      | ok m =>
        rw [hfused] at h
        have htext := textOf_failsOnly (spelled_of_fuseSigns htokens hfused)
        exact absurd (htext.kind_mem h) (by rw [hkind]; decide)
  · rintro ⟨halphabet, hparentheses, tokens, htokens, hlarge⟩
    exact ⟨_, invalidNumber_of_signsTooLarge halphabet hparentheses htokens hlarge, rfl⟩

/-! ### Literals -/

theorem spaced_literal (l : Literal) : Spaced l.formula.leaves l.text.toList := by
  have hchars : l.leaves.flatMap (·.text.toList) = l.text.toList := by
    obtain ⟨negative, d⟩ := l
    cases negative with
    | false => simp [Literal.leaves, Leaf.text, Literal.text, Literal.chars, Lexeme.text]
    | true =>
      simp [Literal.leaves, Leaf.text, Literal.text, Literal.chars, Lexeme.text, Operator.symbol]
  rw [← hchars]
  exact Spaced.tight l.formula.leaves

theorem signsTooLarge_literal {l : Literal} (hn : l.negative = true)
    (h : l.lexeme.value.isFinite = false) : SignsTooLarge true (l.leaves.map Leaf.token) := by
  obtain ⟨negative, d⟩ := l
  obtain rfl : negative = true := hn
  have hlarge : isFiniteNumeral d.text = false := by
    rw [d.text_eq, isFiniteNumeral_literal, h]
  exact .here rfl rfl rfl hlarge

theorem textOf_literal_of_outside {l : Literal} (h : inSafeRange l.lexeme.value = false) :
    textOf [l.token] = fail .numberOutOfRange := by
  have hrefused : ∀ x, checkOperand l.text ≠ .ok x := by
    intro x hx
    obtain ⟨hread, hsafe⟩ := checkOperand_eq_ok.mp hx
    rw [readFloat?_literal] at hread
    cases hread
    rw [l.inSafeRange_value, h] at hsafe
    cases hsafe
  have hstops : Stops l.token [] .numberOutOfRange := .operand rfl hrefused
  rw [textOf, ofTokens, hstops.reorder_cons]
  rfl

/-- **The result of a literal**, whatever its length. -/
theorem calculate_literal (l : Literal) :
    calculate l.text =
      if inSafeRange l.lexeme.value then .ok l.value
      else if l.negative && !l.lexeme.value.isFinite then fail .invalidNumber
      else fail .numberOutOfRange := by
  have hspaced := spaced_literal l
  have halphabet := checkAlphabet_of_spaced hspaced l.formula.leaves_ne_nil
  have hparentheses := Formula.checkParentheses_of_spaced hspaced
  have htokens : tokenize l.text = .ok (l.leaves.map Leaf.token) :=
    Formula.tokenize_of_spaced hspaced
  cases hsafe : inSafeRange l.lexeme.value with
  | true =>
    rw [if_pos rfl]
    refine Formula.calculate_of_spaced (fun l' hl' => ?_) hspaced
    obtain rfl : l' = l := List.mem_singleton.mp hl'
    rw [l'.inSafeRange_value, hsafe]
  | false =>
    rw [if_neg (by simp)]
    cases hsign : l.negative && !l.lexeme.value.isFinite with
    | true =>
      obtain ⟨hn, hinfinite⟩ := Bool.and_eq_true_iff.mp hsign
      rw [Bool.not_eq_true_eq_eq_false] at hinfinite
      rw [if_pos rfl]
      exact invalidNumber_of_signsTooLarge halphabet hparentheses htokens
        (signsTooLarge_literal hn hinfinite)
    | false =>
      rw [if_neg (by simp)]
      have hfused : fuseSigns (l.leaves.map Leaf.token) = .ok [l.token] := by
        have hfinite : l.negative = true → l.lexeme.value.isFinite = true := by
          intro hn
          simpa [hn] using hsign
        have := fuseFrom_literal hfinite []
        rw [List.append_nil] at this
        rw [fuseSigns, this]
        rfl
      rw [calculate_eq halphabet hparentheses htokens hfused, textOf_literal_of_outside hsafe]
      rfl

/-! ### A literal with a sign and without -/

/-- Two outcomes that are both a value, or failures of one kind. -/
def SameVerdict {α β : Type} : Outcome α → Outcome β → Prop
  | .ok _, .ok _ => True
  | .error failure, .error failure' => failure.kind = failure'.kind
  | _, _ => False

/-- **What a sign changes.**  A calculation fails for an invalid number exactly where
    a sign stands before a number that is too large for any finite double.  With a
    sign such a literal is refused as an invalid number and without one as out of
    range.  Every other literal has the same verdict with a sign and without. -/
theorem sign_verdict_iff_finite (text : String) (d : Lexeme) :
    ((∃ failure, calculate text = .error failure ∧ failure.kind = .invalidNumber) ↔
      checkAlphabet text = .ok () ∧ checkParentheses text = .ok () ∧
        ∃ tokens, tokenize text = .ok tokens ∧ SignsTooLarge true tokens) ∧
    isFiniteNumeral d.text = d.value.isFinite ∧
    isFiniteNumeral ("-" ++ d.text) = d.value.isFinite ∧
    calculate d.text =
      (if inSafeRange d.value then .ok d.value else fail .numberOutOfRange) ∧
    calculate ("-" ++ d.text) =
      (if inSafeRange d.value then .ok (-d.value)
      else if d.value.isFinite then fail .numberOutOfRange else fail .invalidNumber) ∧
    (SameVerdict (calculate d.text) (calculate ("-" ++ d.text)) ↔ d.value.isFinite = true) := by
  have hplain : calculate d.text =
      if inSafeRange d.value then .ok d.value else fail .numberOutOfRange := by
    rw [d.text_eq, calculate_literal]
    rfl
  have hsigned : calculate ("-" ++ d.text) =
      if inSafeRange d.value then .ok (-d.value)
      else if d.value.isFinite then fail .numberOutOfRange else fail .invalidNumber := by
    rw [d.minus_append_text, calculate_literal]
    simp only [Literal.value, if_true, Bool.true_and]
    cases d.value.isFinite <;> rfl
  refine ⟨calculate_invalidNumber_iff text, ?_, ?_, hplain, hsigned, ?_⟩
  · rw [d.text_eq, isFiniteNumeral_literal]
  · rw [d.minus_append_text, isFiniteNumeral_literal]
  · rw [hplain, hsigned]
    cases hsafe : inSafeRange d.value with
    | true => simp [SameVerdict, isFinite_of_inSafeRange hsafe]
    | false => cases d.value.isFinite <;> simp [SameVerdict, fail, Failure.of]

/-- A row of 309 nines, beyond the largest finite double. -/
def nines : Lexeme :=
  .row false (List.replicate 309 '9') (fun _ hc => List.eq_of_mem_replicate hc ▸ rfl) nofun

theorem nines_verdict_differs :
    calculate nines.text = fail .numberOutOfRange ∧
      calculate ("-" ++ nines.text) = fail .invalidNumber ∧
      ¬ SameVerdict (calculate nines.text) (calculate ("-" ++ nines.text)) := by
  have hinfinite : nines.value.isFinite = false := by decide +kernel
  have houtside : inSafeRange nines.value = false := by decide +kernel
  have hplain : calculate nines.text = fail .numberOutOfRange := by
    rw [nines.text_eq, calculate_literal, if_neg (by simp [houtside]), if_neg (by simp)]
  have hsigned : calculate ("-" ++ nines.text) = fail .invalidNumber := by
    rw [nines.minus_append_text, calculate_literal, if_neg (by simp [houtside]),
      if_pos (by simp [hinfinite])]
  refine ⟨hplain, hsigned, ?_⟩
  rw [hplain, hsigned]
  exact nofun

end Reckoner
