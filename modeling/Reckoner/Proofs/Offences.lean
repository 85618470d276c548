/-
  Reckoner/Proofs/Offences.lean
  =============================
  **Why the converter refuses tokens.**  Three things can be wrong with a token: its
  kind is unknown, it is a number out of range, or it closes a parenthesis that is
  not open.  The leftmost token with something wrong decides how the converter
  fails, whatever stands behind it.  Only where nothing is wrong with any token do
  the parentheses left open count, and after them whether there is anything to
  calculate (`first_offence_decides`).

  What is open in front of a token is a fact about the tokens before it: some `(`
  among them is not closed by those between the two (`Unclosed`).  The converter
  knows it from a stack which operators enter and leave by precedence.  The bridge
  is a counter, `depthAfter`:

    * it is positive if and only if some parenthesis is unclosed (`unclosed_iff`);
    * it is the number of parentheses on the stack, step by step
      (`Shunts.openings_eq_depthStep`).

  With the counter in place of the prefix one induction follows the converter over
  tokens with nothing wrong, from any stack (`Clean.reorder_append`).
-/
import Reckoner.Proofs.Parentheses

namespace Reckoner

open Reckoner.Number ReversePolish

/-! ### Open parentheses -/

/-- How many parentheses are open behind tokens in front of which `depth` are. -/
def depthAfter (depth : Nat) (ts : List Token) : Nat := ts.foldl depthStep depth

/-- Whether tokens close all of the `depth` parentheses that are open in front of
    them. -/
def closes : Nat → List Token → Bool
  | 0, _ => true
  | _ + 1, [] => false
  | depth + 1, t :: ts => closes (depthStep (depth + 1) t) ts

/-- Some open parenthesis is not closed by the tokens behind it. -/
def Unclosed (ts : List Token) : Prop :=
  ∃ before opening after, ts = before ++ opening :: after ∧ opening.kind = .leftParen ∧
    closes 1 after = false

theorem depthStep_mono {less depth : Nat} (h : less ≤ depth) (t : Token) :
    depthStep less t ≤ depthStep depth t := by
  unfold depthStep
  split <;> omega

theorem depthAfter_mono {less depth : Nat} (h : less ≤ depth) (ts : List Token) :
    depthAfter less ts ≤ depthAfter depth ts := by
  induction ts generalizing less depth with
  | nil => exact h
  | cons t ts ih => exact ih (depthStep_mono h t)

theorem depthStep_zero {t : Token} (hk : t.kind ≠ .leftParen) : depthStep 0 t = 0 := by
  unfold depthStep
  split
  · next h => exact absurd h hk
  · rfl
  · rfl

@[simp] theorem closes_zero (ts : List Token) : closes 0 ts = true := by
  cases ts <;> rfl

theorem closes_of_le {less depth : Nat} {ts : List Token} (hle : less ≤ depth)
    (h : closes depth ts = true) : closes less ts = true := by
  induction ts generalizing less depth with
  | nil =>
    cases less with
    | zero => rfl
    | succ less =>
      obtain ⟨depth, rfl⟩ := Nat.exists_eq_add_of_le' hle
      cases h
  | cons t ts ih =>
    cases less with
    | zero => rfl
    | succ less =>
      obtain ⟨depth, rfl⟩ := Nat.exists_eq_add_of_le' hle
      exact ih (depthStep_mono hle t) h

theorem not_unclosed_nil : ¬ Unclosed [] := by
  rintro ⟨before, opening, after, hsplit, -, -⟩
  cases before <;> cases hsplit

theorem unclosed_cons {t : Token} {ts : List Token} :
    Unclosed (t :: ts) ↔ (t.kind = .leftParen ∧ closes 1 ts = false) ∨ Unclosed ts := by
  constructor
  · rintro ⟨before, opening, after, hsplit, hopen, hleft⟩
    cases before with
    | nil =>
      cases hsplit
      exact Or.inl ⟨hopen, hleft⟩
    | cons first before =>
      cases hsplit
      exact Or.inr ⟨before, opening, after, rfl, hopen, hleft⟩
  · rintro (⟨hopen, hleft⟩ | ⟨before, opening, after, rfl, hopen, hleft⟩)
    · exact ⟨[], t, ts, rfl, hopen, hleft⟩
    · exact ⟨t :: before, opening, after, rfl, hopen, hleft⟩

/-- **The counter ends at zero** where the parentheses open at the start are closed
    and so is each one that is opened later. -/
theorem depthAfter_eq_zero {depth : Nat} {ts : List Token} :
    depthAfter depth ts = 0 ↔ closes depth ts = true ∧ ¬ Unclosed ts := by
  induction ts generalizing depth with
  | nil =>
    cases depth with
    | zero => exact iff_of_true rfl ⟨rfl, not_unclosed_nil⟩
    | succ depth => exact iff_of_false (by simp [depthAfter]) (by simp [closes])
  | cons t ts ih =>
    have hstep : depthAfter depth (t :: ts) = depthAfter (depthStep depth t) ts := rfl
    rw [hstep, ih, unclosed_cons]
    by_cases hopen : t.kind = .leftParen
    · have hdepth : depthStep depth t = depth + 1 := by simp [depthStep, hopen]
      have hone : closes (depth + 1) ts = true → closes 1 ts = true := closes_of_le (by omega)
      rw [hdepth]
      constructor
      · rintro ⟨hcloses, hnone⟩
        refine ⟨?_, by simp [hone hcloses, hnone]⟩
        cases depth with
        | zero => rfl
        | succ depth =>
          show closes (depthStep (depth + 1) t) ts = true
          rwa [hdepth]
      · rintro ⟨hcloses, hnone⟩
        have hclosed : closes 1 ts = true := by
          have hleft : ¬ closes 1 ts = false := fun h => hnone (Or.inl ⟨hopen, h⟩)
          simpa using hleft
        refine ⟨?_, fun h => hnone (Or.inr h)⟩
        cases depth with
        | zero => exact hclosed
        | succ depth =>
          have hrest : closes (depthStep (depth + 1) t) ts = true := hcloses
          rwa [hdepth] at hrest
    · have hcloses : closes depth (t :: ts) = closes (depthStep depth t) ts := by
        cases depth with
        | zero => simp [depthStep_zero hopen]
        | succ depth => rfl
      simp [hcloses, hopen]

theorem unclosed_iff {ts : List Token} : Unclosed ts ↔ 0 < depthAfter 0 ts := by
  have hzero := @depthAfter_eq_zero 0 ts
  rw [closes_zero] at hzero
  constructor
  · intro hopen
    exact Nat.pos_of_ne_zero fun h => (hzero.mp h).2 hopen
  · intro hpos
    by_contra hnone
    exact Nat.ne_of_gt hpos (hzero.mpr ⟨rfl, hnone⟩)

/-! ### Offending tokens -/

/-- What is wrong with a token, where `someOpen` says whether a parenthesis in front
    of it is still open. -/
inductive Offends (someOpen : Prop) : Token → Failure → Prop where
  | unknown {t : Token} {name : String} :
      t.kind = .other name →
      Offends someOpen t ⟨.invalidExpression, "invalid token: " ++ t.text⟩
  | outside {t : Token} :
      t.kind = .number →
      (¬ ∃ x, readFloat? t.text = some x ∧ x.isFinite = true ∧ inSafeRange x = true) →
      Offends someOpen t (.of .numberOutOfRange)
  | unopened {t : Token} :
      t.kind = .rightParen → ¬ someOpen → Offends someOpen t (.of .mismatchedParentheses)

/-- No token has anything wrong with it. -/
def NoneOffends (ts : List Token) : Prop :=
  ∀ before t after failure, ts = before ++ t :: after → ¬ Offends (Unclosed before) t failure

/-- The leftmost token with something wrong, and what that is. -/
def FirstOffence (ts : List Token) (failure : Failure) : Prop :=
  ∃ before t after, ts = before ++ t :: after ∧ NoneOffends before ∧
    Offends (Unclosed before) t failure

/-- Nothing is wrong with tokens in front of which `depth` parentheses are open. -/
def Clean (depth : Nat) (ts : List Token) : Prop :=
  ∀ before t after failure, ts = before ++ t :: after →
    ¬ Offends (0 < depthAfter depth before) t failure

theorem clean_zero {ts : List Token} : Clean 0 ts ↔ NoneOffends ts := by
  simp only [Clean, NoneOffends, unclosed_iff]

theorem clean_nil (depth : Nat) : Clean depth [] := by
  intro before t after failure hsplit
  cases before <;> cases hsplit

theorem clean_cons {depth : Nat} {t : Token} {ts : List Token} :
    Clean depth (t :: ts) ↔
      (∀ failure, ¬ Offends (0 < depth) t failure) ∧ Clean (depthStep depth t) ts := by
  constructor
  · intro h
    refine ⟨fun failure => h [] t ts failure rfl, ?_⟩
    intro before t' after failure hsplit
    exact h (t :: before) t' after failure (by rw [hsplit]; rfl)
  · rintro ⟨hfirst, hrest⟩ before t' after failure hsplit
    cases before with
    | nil =>
      cases hsplit
      exact hfirst failure
    | cons first before =>
      cases hsplit
      exact hrest before t' after failure rfl

/-- An open parenthesis more makes no token wrong. -/
theorem Offends.mono {p q : Prop} {t : Token} {failure : Failure} (h : Offends p t failure)
    (hle : q → p) : Offends q t failure := by
  cases h with
  | unknown hk => exact .unknown hk
  | outside hk hx => exact .outside hk hx
  | unopened hk hnone => exact .unopened hk fun hq => hnone (hle hq)

theorem Clean.mono {less depth : Nat} {ts : List Token} (h : Clean less ts)
    (hle : less ≤ depth) : Clean depth ts := by
  intro before t after failure hsplit hoffends
  have hdepth := depthAfter_mono hle before
  exact h before t after failure hsplit (hoffends.mono fun hpos => by omega)

/-- Where something is wrong there is a leftmost token with something wrong. -/
theorem exists_first_of_not_clean {depth : Nat} {ts : List Token} (h : ¬ Clean depth ts) :
    ∃ before t after failure, ts = before ++ t :: after ∧ Clean depth before ∧
      Offends (0 < depthAfter depth before) t failure := by
  induction ts generalizing depth with
  | nil => exact absurd (clean_nil depth) h
  | cons t ts ih =>
    by_cases hfirst : ∀ failure, ¬ Offends (0 < depth) t failure
    · have hrest : ¬ Clean (depthStep depth t) ts := fun hrest => h (clean_cons.mpr ⟨hfirst, hrest⟩)
      obtain ⟨before, t', after, failure, rfl, hclean, hoffends⟩ := ih hrest
      exact ⟨t :: before, t', after, failure, rfl, clean_cons.mpr ⟨hfirst, hclean⟩, hoffends⟩
    · obtain ⟨failure, hoffends⟩ := not_forall_not.mp hfirst
      exact ⟨[], t, ts, failure, rfl, clean_nil depth, hoffends⟩

/-! ### One step of the converter -/

theorem checkOperand_eq_ok_iff_exists {text : String} :
    (∃ x, checkOperand text = .ok x) ↔
      ∃ x, readFloat? text = some x ∧ x.isFinite = true ∧ inSafeRange x = true := by
  constructor
  · rintro ⟨x, hx⟩
    obtain ⟨hread, hsafe⟩ := checkOperand_eq_ok.mp hx
    exact ⟨x, hread, isFinite_of_inSafeRange hsafe, hsafe⟩
  · rintro ⟨x, hread, -, hsafe⟩
    exact ⟨x, checkOperand_eq_ok.mpr ⟨hread, hsafe⟩⟩

namespace ReversePolish

/-- The converter stops at a token with something wrong, and says what. -/
theorem reorder_of_offends {t : Token} {stack : List Token} {failure : Failure}
    (h : Offends (0 < openings stack) t failure) (rest : List Token) :
    reorder stack (t :: rest) = .error failure := by
  cases h with
  | unknown hk =>
    rw [reorder]
    simp only [hk, Failure.invalidToken_eq]
  | outside hk hx =>
    have hrefused : ∀ x, checkOperand t.text ≠ .ok x := by
      intro x hok
      exact hx (checkOperand_eq_ok_iff_exists.mp ⟨x, hok⟩)
    exact (Stops.operand hk hrefused).reorder_cons rest
  | unopened hk hnone =>
    have hall : stack.all insideGroup = true := openings_eq_zero.mp (by omega)
    have hstack : stack.dropWhile insideGroup = [] := by
      rw [List.dropWhile_eq_nil_iff]
      exact List.all_eq_true.mp hall
    exact (Stops.unopened hk hstack).reorder_cons rest

/-- The converter goes on at a token with nothing wrong. -/
theorem shunts_of_not_offends {t : Token} {stack : List Token}
    (h : ∀ failure, ¬ Offends (0 < openings stack) t failure) :
    ∃ sent after, Shunts t stack sent after := by
  cases hk : t.kind with
  | number =>
    have hinside : ∃ x, checkOperand t.text = .ok x := by
      rw [checkOperand_eq_ok_iff_exists]
      by_contra hx
      exact h _ (.outside hk hx)
    obtain ⟨x, hx⟩ := hinside
    exact ⟨_, _, .number hk hx⟩
  | operator => exact ⟨_, _, .operator hk⟩
  | leftParen => exact ⟨_, _, .opening hk⟩
  | rightParen =>
    have hopen : 0 < openings stack := by
      by_contra hnone
      exact h _ (.unopened hk hnone)
    cases hstack : stack.dropWhile insideGroup with
    | nil =>
      have hzero : openings stack = 0 := by
        rw [← openings_dropWhile (fun _ htop => htop) stack, hstack, openings_nil]
      omega
    | cons opening outside => exact ⟨_, _, .closing hk hstack⟩
  | other name => exact absurd (.unknown hk) (h _)

end ReversePolish

/-! ### A whole run -/

/-- **Tokens with nothing wrong are put in order without regard to what follows**,
    and leave as many parentheses on the stack as are open behind them. -/
theorem Clean.reorder_append {ts : List Token} :
    ∀ {stack : List Token}, Clean (openings stack) ts →
      ∃ sent after, openings after = depthAfter (openings stack) ts ∧
        ∀ rest, reorder stack (ts ++ rest) = (sent ++ ·) <$> reorder after rest := by
  induction ts with
  | nil =>
    intro stack _
    exact ⟨[], stack, rfl, fun rest => (Outcome.nil_append_map _).symm⟩
  | cons t ts ih =>
    intro stack h
    obtain ⟨hfirst, hrest⟩ := clean_cons.mp h
    obtain ⟨sent, after, hstep⟩ := shunts_of_not_offends hfirst
    rw [← hstep.openings_eq_depthStep] at hrest
    obtain ⟨sent', after', hdepth, hrun⟩ := ih hrest
    refine ⟨sent ++ sent', after', ?_, fun rest => ?_⟩
    · rw [hdepth, hstep.openings_eq_depthStep]
      rfl
    · rw [List.cons_append, hstep.reorder_cons, hrun, Outcome.append_map_append_map]

/-- From any stack, the leftmost token with something wrong decides. -/
theorem reorder_of_first {before : List Token} {stack : List Token}
    (hclean : Clean (openings stack) before) {t : Token} {failure : Failure}
    (h : Offends (0 < depthAfter (openings stack) before) t failure) (rest : List Token) :
    reorder stack (before ++ t :: rest) = .error failure := by
  obtain ⟨sent, after, hdepth, hrun⟩ := hclean.reorder_append
  rw [← hdepth] at h
  rw [hrun, reorder_of_offends h]
  rfl

/-- **What stands in front is put in order, or refused, without regard to what follows.** -/
theorem reorder_append_cases (ts stack : List Token) :
    (∃ sent after, ∀ rest, reorder stack (ts ++ rest) = (sent ++ ·) <$> reorder after rest) ∨
      ∃ failure, ∀ rest, reorder stack (ts ++ rest) = .error failure := by
  by_cases hclean : Clean (openings stack) ts
  · obtain ⟨sent, after, -, hrun⟩ := hclean.reorder_append
    exact Or.inl ⟨sent, after, hrun⟩
  · obtain ⟨before, t, after, failure, rfl, hbefore, hoffends⟩ :=
      exists_first_of_not_clean hclean
    refine Or.inr ⟨failure, fun rest => ?_⟩
    rw [List.append_assoc, List.cons_append]
    exact reorder_of_first hbefore hoffends (after ++ rest)

/-- With nothing wrong only parentheses left open are in the way of an order. -/
theorem Clean.reorder_cases {ts : List Token} (h : Clean 0 ts) :
    (Unclosed ts ∧ reorder [] ts = fail .mismatchedParentheses) ∨
      ¬ Unclosed ts ∧ ∃ out, reorder [] ts = .ok out := by
  obtain ⟨sent, after, hdepth, hrun⟩ := @Clean.reorder_append ts [] h
  have hend := hrun []
  rw [List.append_nil, reorder, drain] at hend
  rw [openings_nil] at hdepth
  by_cases hall : after.all insideGroup = true
  · have hzero : depthAfter 0 ts = 0 := by
      rw [← hdepth]
      exact openings_eq_zero.mpr hall
    refine Or.inr ⟨fun hopen => Nat.ne_of_gt (unclosed_iff.mp hopen) hzero, sent ++ after, ?_⟩
    rw [hend, if_pos hall]
    rfl
  · have hpos : 0 < depthAfter 0 ts := by
      rw [← hdepth]
      exact Nat.pos_of_ne_zero fun hzero => hall (openings_eq_zero.mp hzero)
    refine Or.inl ⟨unclosed_iff.mpr hpos, ?_⟩
    rw [hend, if_neg hall]
    rfl

/-- What an order lacks is what the tokens lack. -/
theorem order_eq_nil {ts out : List Token} (h : reorder [] ts = .ok out) :
    out = [] ↔ ∀ t ∈ ts, ordered t = false := by
  have hperm := (reorder_eq_ok_iff.mp h).1.perm
  rw [← List.length_eq_zero_iff, hperm.length_eq, List.length_eq_zero_iff, List.filter_eq_nil_iff]
  simp

/-- **How the conversion of tokens with nothing wrong ends.** -/
theorem NoneOffends.textOf_cases {ts : List Token} (h : NoneOffends ts) :
    (Unclosed ts ∧ textOf ts = fail .mismatchedParentheses) ∨
      (¬ Unclosed ts ∧ (∀ t ∈ ts, ordered t = false) ∧ textOf ts = fail .emptyExpression) ∨
      ¬ Unclosed ts ∧ (∃ t ∈ ts, ordered t = true) ∧ ∃ text, textOf ts = .ok text := by
  rcases (clean_zero.mpr h).reorder_cases with ⟨hopen, hfails⟩ | ⟨hclosed, out, hout⟩
  · refine Or.inl ⟨hopen, ?_⟩
    rw [textOf, ofTokens, hfails]
    rfl
  · by_cases hnil : out = []
    · refine Or.inr (Or.inl ⟨hclosed, (order_eq_nil hout).mp hnil, ?_⟩)
      rw [textOf, ofTokens, hout, hnil]
      rfl
    · refine Or.inr (Or.inr ⟨hclosed, ?_, render out, ?_⟩)
      · by_contra hnone
        refine hnil ((order_eq_nil hout).mpr fun t ht => ?_)
        by_contra hordered
        exact hnone ⟨t, ht, by simpa using hordered⟩
      · rw [textOf, ofTokens_eq_ok.mpr ⟨hout, hnil⟩]
        rfl

theorem exists_firstOffence {ts : List Token} (h : ¬ NoneOffends ts) :
    ∃ failure, FirstOffence ts failure := by
  rw [← clean_zero] at h
  obtain ⟨before, t, after, failure, hsplit, hclean, hoffends⟩ := exists_first_of_not_clean h
  rw [← unclosed_iff] at hoffends
  exact ⟨failure, before, t, after, hsplit, clean_zero.mp hclean, hoffends⟩

theorem FirstOffence.textOf_eq {ts : List Token} {failure : Failure}
    (h : FirstOffence ts failure) : textOf ts = .error failure := by
  obtain ⟨before, t, after, rfl, hnone, hoffends⟩ := h
  rw [unclosed_iff] at hoffends
  rw [textOf, ofTokens, @reorder_of_first before [] (clean_zero.mpr hnone) t failure hoffends]
  rfl

/-- **The leftmost token with something wrong decides**, and says with which message.
    Where nothing is wrong with any token, the tokens are refused for a parenthesis
    that is never closed, then for having neither a number nor an operator, and for
    nothing else. -/
theorem first_offence_decides (ts : List Token) :
    (NoneOffends ts ∨ ∃ failure, FirstOffence ts failure) ∧
    (∀ failure, FirstOffence ts failure → textOf ts = .error failure) ∧
    (NoneOffends ts →
      (textOf ts = fail .mismatchedParentheses ↔ Unclosed ts) ∧
      (textOf ts = fail .emptyExpression ↔
        ¬ Unclosed ts ∧ ∀ t ∈ ts, t.isNumber = false ∧ t.isOperator = false) ∧
      ((∃ text, textOf ts = .ok text) ↔
        ¬ Unclosed ts ∧ ∃ t ∈ ts, t.isNumber = true ∨ t.isOperator = true)) := by
  refine ⟨?_, fun failure h => h.textOf_eq, fun h => ?_⟩
  · by_cases h : NoneOffends ts
    · exact Or.inl h
    · exact Or.inr (exists_firstOffence h)
  · rcases h.textOf_cases with
      ⟨hopen, hresult⟩ | ⟨hclosed, hnone, hresult⟩ | ⟨hclosed, hsome, text, hresult⟩
    · simp [hresult, hopen, fail, Failure.of]
    · have hnone' : ∀ t ∈ ts, t.isNumber = false ∧ t.isOperator = false := by
        simpa [ordered] using hnone
      refine ⟨?_, ?_, ?_⟩
      · simp [hresult, hclosed, fail, Failure.of]
      · exact iff_of_true hresult ⟨hclosed, hnone'⟩
      · refine iff_of_false (by simp [hresult, fail]) ?_
        rintro ⟨-, t, ht, hk⟩
        simp [hnone' t ht] at hk
    · obtain ⟨t, ht, hk⟩ := hsome
      have hk' : t.isNumber = true ∨ t.isOperator = true := by simpa [ordered] using hk
      refine ⟨?_, ?_, ?_⟩
      · simp [hresult, hclosed, fail]
      · refine iff_of_false (by simp [hresult, fail]) ?_
        rintro ⟨-, hnone⟩
        simp [hnone t ht] at hk'
      · exact iff_of_true ⟨text, hresult⟩ ⟨hclosed, t, ht, hk'⟩

/-- In `(9e99,))` the number, the comma and the last parenthesis are all wrong, and
    the number comes first. -/
def thrice : List Token :=
  [⟨.leftParen, "("⟩, ⟨.number, "9e99"⟩, ⟨.other "comma", ","⟩, ⟨.rightParen, ")"⟩,
    ⟨.rightParen, ")"⟩]

theorem first_offence_decides_thrice : textOf thrice = fail .numberOutOfRange := by
  have hnone : NoneOffends [⟨.leftParen, "("⟩] := by
    rw [← clean_zero, clean_cons]
    refine ⟨?_, clean_nil _⟩
    intro failure hoffends
    cases hoffends <;> contradiction
  have houtside : (readFloat? "9e99").any (fun x => x.isFinite && inSafeRange x) = false := by
    decide +kernel
  have hoffends : Offends (Unclosed [⟨.leftParen, "("⟩]) ⟨.number, "9e99"⟩
      (.of .numberOutOfRange) := by
    refine .outside rfl ?_
    rintro ⟨x, hread, hfinite, hsafe⟩
    simp [hread, hfinite, hsafe] at houtside
  obtain ⟨-, hdecides, -⟩ := first_offence_decides thrice
  exact hdecides _ ⟨_, _, _, rfl, hnone, hoffends⟩

end Reckoner
