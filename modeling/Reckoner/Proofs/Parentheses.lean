/-
  Reckoner/Proofs/Parentheses.lean
  ================================
  **Two checks of parentheses.**  The parentheses of a text are checked twice: by
  a counter over its characters before it is read, and by the stack of the
  converter, among operators that come and go by precedence.  Both decide the
  same (`parenthesis_checks_agree`).

  What ties them together is the number of parentheses on the stack
  (`openings`).  One step of the converter changes it as the counter does
  (`Shunts.openings_eq_depthStep`), so the counter that starts at that number says
  how the whole run ends (`reorder_cases`).  An operand out of range ends it early,
  which is why a text with such an operand may be refused for that instead.
-/
import Reckoner.Proofs.Order
import Reckoner.Proofs.Stages

namespace Reckoner

/-! ### Counting -/

/-- How many parentheses are open behind a token.  A `)` where none is open closes
    nothing. -/
def depthStep (depth : Nat) (t : Token) : Nat :=
  match t.kind with
  | .leftParen => depth + 1
  | .rightParen => depth - 1
  | _ => depth

/-- Where a `)` finds a parenthesis to close the check of the parentheses counts. -/
theorem balancedTokens_cons_of_opened {depth : Nat} {t : Token}
    (h : t.kind = .rightParen → depth ≠ 0) (ts : List Token) :
    balancedTokens depth (t :: ts) = balancedTokens (depthStep depth t) ts := by
  cases hk : t.kind with
  | rightParen =>
    obtain ⟨outer, rfl⟩ := Nat.exists_eq_succ_of_ne_zero (h hk)
    simp [balancedTokens, depthStep, hk]
  | leftParen => simp only [balancedTokens, depthStep, hk]
  | number => simp only [balancedTokens, depthStep, hk]
  | operator => simp only [balancedTokens, depthStep, hk]
  | other name => simp only [balancedTokens, depthStep, hk]

theorem opened_of_balancedTokens {depth : Nat} {t : Token} {ts : List Token}
    (h : balancedTokens depth (t :: ts) = true) : t.kind = .rightParen → depth ≠ 0 := by
  rintro hk rfl
  simp [balancedTokens, hk] at h

end Reckoner

namespace Reckoner.ReversePolish

/-! ### Parentheses on the stack -/

/-- How many parentheses are open on the stack. -/
def openings (stack : List Token) : Nat := stack.countP fun t => !insideGroup t

@[simp] theorem openings_nil : openings [] = 0 := rfl

theorem openings_cons_of_leftParen {t : Token} (hk : t.kind = .leftParen) (stack : List Token) :
    openings (t :: stack) = openings stack + 1 := by
  simp [openings, insideGroup, hk]

theorem openings_cons_of_ne {t : Token} (hk : t.kind ≠ .leftParen) (stack : List Token) :
    openings (t :: stack) = openings stack := by
  simp [openings, insideGroup, hk]

theorem openings_dropWhile {p : Token → Bool} (hp : ∀ t, p t = true → insideGroup t = true)
    (stack : List Token) : openings (stack.dropWhile p) = openings stack := by
  induction stack with
  | nil => rfl
  | cons t stack ih =>
    by_cases ht : p t = true
    · rw [List.dropWhile_cons_of_pos ht, ih]
      simp [openings, hp t ht]
    · rw [List.dropWhile_cons_of_neg ht]

theorem openings_eq_zero {stack : List Token} :
    openings stack = 0 ↔ stack.all insideGroup = true := by
  simp [openings, List.countP_eq_zero]

/-! ### One step -/

theorem insideGroup_of_dropWhile {opening : Token} {stack outside : List Token}
    (h : stack.dropWhile insideGroup = opening :: outside) : opening.kind = .leftParen := by
  have hopening := List.head?_dropWhile_not insideGroup stack
  rw [h] at hopening
  simpa [insideGroup] using hopening

theorem openings_of_dropWhile {opening : Token} {stack outside : List Token}
    (h : stack.dropWhile insideGroup = opening :: outside) :
    openings stack = openings outside + 1 := by
  rw [← openings_dropWhile (fun _ htop => htop) stack, h,
    openings_cons_of_leftParen (insideGroup_of_dropWhile h)]

/-- **A step keeps count**: the parentheses on the stack are those that are open. -/
theorem Shunts.openings_eq_depthStep {t : Token} {stack sent after : List Token}
    (h : Shunts t stack sent after) : openings after = depthStep (openings stack) t := by
  cases h with
  | number hk _ => simp [depthStep, hk]
  | operator hk =>
    have hinside : ∀ top, binds t.precedence top = true → insideGroup top = true := by
      intro top htop
      exact insideGroup_of_operator (binds_eq_true.mp htop).1
    rw [openings_cons_of_ne (by simp [hk]), openings_dropWhile hinside]
    simp [depthStep, hk]
  | opening hk =>
    rw [openings_cons_of_leftParen hk]
    simp [depthStep, hk]
  | closing hk hstack =>
    rw [openings_of_dropWhile hstack]
    simp [depthStep, hk]

/-- Where the converter goes on at a closing parenthesis one is open. -/
theorem Shunts.opened {t : Token} {stack sent after : List Token}
    (h : Shunts t stack sent after) (hk : t.kind = .rightParen) : openings stack ≠ 0 := by
  cases h with
  | closing _ hstack =>
    rw [openings_of_dropWhile hstack]
    exact Nat.succ_ne_zero _
  | number hk' _ => rw [hk] at hk'; cases hk'
  | operator hk' => rw [hk] at hk'; cases hk'
  | opening hk' => rw [hk] at hk'; cases hk'

/-- The converter stops at a closing parenthesis exactly where the counter is at
    zero. -/
theorem Stops.unbalanced {t : Token} {stack : List Token}
    (h : Stops t stack .mismatchedParentheses) (ts : List Token) :
    balancedTokens (openings stack) (t :: ts) = false := by
  cases h with
  | unopened hk hstack =>
    have hzero : openings stack = 0 := by
      rw [← openings_dropWhile (fun _ htop => htop) stack, hstack, openings_nil]
    rw [hzero]
    simp only [balancedTokens, hk]

/-! ### A whole run -/

/-- **How a run over tokens of known kinds ends.** -/
theorem reorder_cases {ts : List Token} (hspelled : ∀ t ∈ ts, t.Spelled) :
    ∀ stack : List Token,
      (∃ out, reorder stack ts = .ok out ∧ balancedTokens (openings stack) ts = true) ∨
      (reorder stack ts = fail .mismatchedParentheses ∧
        balancedTokens (openings stack) ts = false) ∨
      (reorder stack ts = fail .numberOutOfRange ∧ ¬ Operands ts) := by
  induction ts with
  | nil =>
    intro stack
    rw [reorder, drain]
    by_cases hall : stack.all insideGroup = true
    · rw [if_pos hall]
      exact Or.inl ⟨stack, rfl, by simpa [balancedTokens] using openings_eq_zero.mpr hall⟩
    · rw [if_neg hall]
      refine Or.inr (Or.inl ⟨rfl, ?_⟩)
      simpa [balancedTokens] using fun hzero => hall (openings_eq_zero.mp hzero)
  | cons t ts ih =>
    intro stack
    rcases shunts_or_stops (hspelled t (by simp)) stack with
      ⟨sent, after, hstep⟩ | ⟨kind, hstops⟩
    · rw [hstep.reorder_cons, balancedTokens_cons_of_opened hstep.opened,
        ← hstep.openings_eq_depthStep]
      rcases ih (fun t ht => hspelled t (by simp [ht])) after with
        ⟨out, hout, hbalanced⟩ | ⟨hfails, hbalanced⟩ | ⟨hfails, hoperands⟩
      · exact Or.inl ⟨sent ++ out, by rw [hout]; rfl, hbalanced⟩
      · exact Or.inr (Or.inl ⟨by rw [hfails]; rfl, hbalanced⟩)
      · refine Or.inr (Or.inr ⟨by rw [hfails]; rfl, fun hall => ?_⟩)
        exact hoperands (@Operands.append [t] ts hall).2
    · rw [hstops.reorder_cons]
      cases hstops with
      | operand hk hx =>
        refine Or.inr (Or.inr ⟨rfl, fun hall => ?_⟩)
        obtain ⟨x, hok⟩ := hall t (by simp) hk
        exact hx x hok
      | unopened hk hstack => exact Or.inr (Or.inl ⟨rfl, Stops.unbalanced (.unopened hk hstack) ts⟩)

/-- Which tokens of known kinds have an order: those whose operands are in range and
    whose parentheses pair up with the ones on the stack, wherever the operators
    stand. -/
theorem exists_reorder {ts stack : List Token} (hspelled : ∀ t ∈ ts, t.Spelled)
    (hoperands : Operands ts) :
    (∃ out, reorder stack ts = .ok out) ↔ balancedTokens (openings stack) ts = true := by
  rcases reorder_cases hspelled stack with
    ⟨out, hout, hbalanced⟩ | ⟨hfails, hbalanced⟩ | ⟨hfails, hnot⟩
  · simp [hout, hbalanced]
  · simp [hfails, hbalanced, fail]
  · exact absurd hoperands hnot

theorem reorder_failsOnly {ts : List Token} (hspelled : ∀ t ∈ ts, t.Spelled)
    (stack : List Token) :
    Outcome.FailsOnly [.mismatchedParentheses, .numberOutOfRange] (reorder stack ts) := by
  rcases reorder_cases hspelled stack with ⟨out, hout, -⟩ | ⟨hfails, -⟩ | ⟨hfails, -⟩
  · rw [hout]
    exact .ok _ out
  · rw [hfails]
    exact .fail (by decide)
  · rw [hfails]
    exact .fail (by decide)

end Reckoner.ReversePolish

/-! ### Texts -/

namespace Reckoner

open Reckoner.Number ReversePolish

theorem operands_of_inSafeRange {ts : List Token}
    (h : ∀ t ∈ ts, t.isNumber = true → ∃ x, readFloat? t.text = some x ∧ inSafeRange x = true) :
    Operands ts := by
  intro t ht hk
  obtain ⟨x, hx⟩ := h t ht (by simp [Token.isNumber, hk])
  exact ⟨x, checkOperand_eq_ok.mpr hx⟩

/-- **The two checks agree.**  Where the counter accepts a text, the converter finds
    no fault with its parentheses.  Where the counter refuses it, the converter
    refuses its tokens too, and for the parentheses unless an operand is out of
    range.  So with all operands in range the two accept the same. -/
theorem parenthesis_checks_agree {text : String} {tokens m : List Token}
    (htokens : tokenize text = .ok tokens) (hfused : fuseSigns tokens = .ok m) :
    (checkParentheses text = .ok () →
      ∀ failure, textOf m = .error failure → failure.kind ≠ .mismatchedParentheses) ∧
    (∀ refusal, checkParentheses text = .error refusal →
      (∃ failure, textOf m = .error failure) ∧
      ((∀ t ∈ m, t.isNumber = true → ∃ x, readFloat? t.text = some x ∧ inSafeRange x = true) →
        textOf m = fail .mismatchedParentheses)) ∧
    ((∀ t ∈ m, t.isNumber = true → ∃ x, readFloat? t.text = some x ∧ inSafeRange x = true) →
      ((∃ out, reorder [] m = .ok out) ↔ checkParentheses text = .ok ())) := by
  have hspelled := spelled_of_fuseSigns htokens hfused
  have hcount : balancedTokens (openings []) m = balanced 0 text.toList :=
    balancedTokens_of_fuseSigns htokens hfused
  refine ⟨?_, ?_, ?_⟩
  · intro hparentheses failure hfailure
    have hbalanced := checkParentheses_eq_ok.mp hparentheses
    rw [textOf, ofTokens] at hfailure
    rcases reorder_cases hspelled [] with ⟨out, hout, -⟩ | ⟨-, hunbalanced⟩ | ⟨hfails, -⟩
    · rw [hout] at hfailure
      cases out with
      | nil => cases hfailure; decide
      | cons t out => cases hfailure
    · rw [hcount, hbalanced] at hunbalanced
      cases hunbalanced
    · rw [hfails] at hfailure
      cases hfailure
      decide
  · intro refusal hrefusal
    rw [textOf, ofTokens]
    rcases reorder_cases hspelled [] with ⟨out, -, hbalanced⟩ | ⟨hfails, -⟩ | ⟨hfails, hnot⟩
    · rw [hcount, ← checkParentheses_eq_ok, hrefusal] at hbalanced
      cases hbalanced
    · rw [hfails]
      exact ⟨⟨_, rfl⟩, fun _ => rfl⟩
    · rw [hfails]
      exact ⟨⟨_, rfl⟩, fun hrange => absurd (operands_of_inSafeRange hrange) hnot⟩
  · intro hrange
    rw [exists_reorder hspelled (operands_of_inSafeRange hrange), hcount, checkParentheses_eq_ok]

/-- In `(1))*(-2` each parenthesis has a partner of the other kind, and yet they do
    not pair up. -/
def crossed : List Token :=
  [⟨.leftParen, "("⟩, ⟨.number, "1"⟩, ⟨.rightParen, ")"⟩, ⟨.rightParen, ")"⟩,
    ⟨.operator, "*"⟩, ⟨.leftParen, "("⟩, ⟨.number, "-2"⟩]

theorem parenthesis_checks_agree_crossed : textOf crossed = fail .mismatchedParentheses := by
  have hrange : ∀ t ∈ crossed, t.isNumber = true →
      (readFloat? t.text).any inSafeRange = true := by decide +kernel
  obtain ⟨-, hrefused, -⟩ := @parenthesis_checks_agree "(1))*(-2"
    [⟨.leftParen, "("⟩, ⟨.number, "1"⟩, ⟨.rightParen, ")"⟩, ⟨.rightParen, ")"⟩,
      ⟨.operator, "*"⟩, ⟨.leftParen, "("⟩, ⟨.operator, "-"⟩, ⟨.number, "2"⟩]
    crossed (by decide +kernel) (by decide +kernel)
  obtain ⟨-, hexactly⟩ := hrefused (.of .mismatchedParentheses) (by decide +kernel)
  exact hexactly fun t ht hnumber => (Option.any_eq_true _ _).mp (hrange t ht hnumber)

end Reckoner
