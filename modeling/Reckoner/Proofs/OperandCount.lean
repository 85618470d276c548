/-
  Reckoner/Proofs/OperandCount.lean
  =================================
  **Counting operands.**  The converter does not ask whether an operator has its
  two operands; the evaluator asks, by the height of its stack.  Two counts carry
  what can be said of that:

    * the `surplus` of a row of tokens is the number of its operands less the
      number of its operators.  Where no two operands stand side by side it is at
      most one, and it is one for formulas only (`Reorders.surplus_le`);
    * `heightAfter` follows the height of the stack along a reverse Polish order.
      It ends at the surplus, or stops at an operator that finds fewer than two
      numbers.

  The converter changes the order of the tokens and not their surplus, so tokens
  that are no formula leave some operator short.
-/
import Reckoner.Proofs.Evaluation
import Reckoner.Proofs.Order

namespace Reckoner

open Reckoner.Number ReversePolish

/-! ### Operands side by side -/

namespace Token

/-- Whether an operand may end in a token. -/
def endsOperand (t : Token) : Bool := t.isNumber || t.kind == .rightParen

/-- Whether an operand may begin with a token. -/
def beginsOperand (t : Token) : Bool := t.isNumber || t.kind == .leftParen

end Token

/-- Two operands stand side by side, with no operator between them. -/
def Juxtaposed (ts : List Token) : Prop :=
  ∃ before a b after, ts = before ++ a :: b :: after ∧
    a.endsOperand = true ∧ b.beginsOperand = true

theorem Juxtaposed.append_left {ts : List Token} (h : Juxtaposed ts) (before : List Token) :
    Juxtaposed (before ++ ts) := by
  obtain ⟨before', a, b, after, rfl, ha, hb⟩ := h
  exact ⟨before ++ before', a, b, after, by simp, ha, hb⟩

theorem Juxtaposed.append_right {ts : List Token} (h : Juxtaposed ts) (after : List Token) :
    Juxtaposed (ts ++ after) := by
  obtain ⟨before, a, b, after', rfl, ha, hb⟩ := h
  exact ⟨before, a, b, after' ++ after, by simp, ha, hb⟩

theorem juxtaposed_cons_cons {a b : Token} {ts : List Token} :
    Juxtaposed (a :: b :: ts) ↔
      (a.endsOperand = true ∧ b.beginsOperand = true) ∨ Juxtaposed (b :: ts) := by
  constructor
  · rintro ⟨before, a', b', after, heq, ha, hb⟩
    cases before with
    | nil =>
      cases heq
      exact Or.inl ⟨ha, hb⟩
    | cons t before =>
      injection heq with _ heq
      exact Or.inr ⟨before, a', b', after, heq, ha, hb⟩
  · rintro (⟨ha, hb⟩ | h)
    · exact ⟨[], a, b, ts, rfl, ha, hb⟩
    · exact h.append_left [a]

theorem not_juxtaposed_nil : ¬ Juxtaposed [] := by
  rintro ⟨before, a, b, after, heq, -, -⟩
  cases before <;> cases heq

theorem not_juxtaposed_singleton (t : Token) : ¬ Juxtaposed [t] := by
  rintro ⟨before, a, b, after, heq, -, -⟩
  have := congrArg List.length heq
  simp at this
  omega

instance decidableJuxtaposed : DecidablePred Juxtaposed
  | [] => isFalse not_juxtaposed_nil
  | [t] => isFalse (not_juxtaposed_singleton t)
  | _ :: b :: ts =>
    have := decidableJuxtaposed (b :: ts)
    decidable_of_iff' _ juxtaposed_cons_cons

/-! ### The surplus -/

/-- How many more operands than operators there are. -/
def surplus (ts : List Token) : Int :=
  (ts.countP Token.isNumber : Int) - (ts.countP Token.isOperator : Int)

@[simp] theorem surplus_append (xs ys : List Token) :
    surplus (xs ++ ys) = surplus xs + surplus ys := by
  simp only [surplus, List.countP_append]
  omega

theorem surplus_cons (t : Token) (ts : List Token) : surplus (t :: ts) = surplus [t] + surplus ts :=
  surplus_append [t] ts

theorem surplus_number {t : Token} (hk : t.kind = .number) : surplus [t] = 1 := by
  simp [surplus, Token.isNumber, Token.isOperator, hk]

theorem surplus_operator {t : Token} (hk : t.kind = .operator) : surplus [t] = -1 := by
  simp [surplus, Token.isNumber, Token.isOperator, hk]

theorem surplus_paren {t : Token} (hk : t.kind = .leftParen ∨ t.kind = .rightParen) :
    surplus [t] = 0 := by
  rcases hk with hk | hk <;> simp [surplus, Token.isNumber, Token.isOperator, hk]

/-- The converter keeps the surplus. -/
theorem ReversePolish.Reorders.surplus_eq {part : Part} {ts out : List Token}
    (h : Reorders part ts out) : surplus out = surplus ts := by
  induction h with
  | nothing => rfl
  | number _ _ ih => rw [surplus_append, surplus_append, ih]
  | @group ts out inner inside opening closing _ hopen _ hclose ihts ihinner =>
    rw [surplus_append, surplus_append, surplus_cons opening, surplus_append,
      surplus_paren (Or.inl hopen), surplus_paren (Or.inr hclose), ihts, ihinner]
    omega
  | chain _ _ ih => exact ih
  | @operation left leftOut right rightOut op least _ _ _ _ ihl ihr =>
    rw [surplus_append, surplus_append, surplus_append, surplus_cons op right, ihl, ihr]
    omega

/-! ### Where no operands stand side by side -/

/-- The sort that a part is once it holds one operand in each place. -/
def ReversePolish.Part.level : Part → Level
  | .run => .factor
  | .chain least => if least ≤ 1 then .sum else if least = 2 then .term else .factor

theorem Derives.of_factor {ts : List Token} (h : Derives .factor ts) (level : Level) :
    Derives level ts := by
  cases level with
  | factor => exact h
  | term => exact .factor h
  | sum => exact .term (.factor h)

theorem Derives.of_operator_level {op : Operator} {least : Nat} (hle : least ≤ op.precedence)
    {ts : List Token} (h : Derives op.level ts) : Derives (Part.chain least).level ts := by
  have hsum : Derives .sum ts → least ≤ 1 → Derives (Part.chain least).level ts := by
    intro hts hle
    rw [Part.level, if_pos hle]
    exact hts
  have hterm : Derives .term ts → least ≤ 2 → Derives (Part.chain least).level ts := by
    intro hts hle
    by_cases hone : least ≤ 1
    · rw [Part.level, if_pos hone]
      exact .term hts
    · rw [Part.level, if_neg hone, if_pos (by omega)]
      exact hts
  cases op with
  | add => exact hsum h hle
  | subtract => exact hsum h hle
  | multiply => exact hterm h hle
  | divide => exact hterm h hle

theorem Operator.level_chain (op : Operator) : (Part.chain op.precedence).level = op.level := by
  cases op <;> rfl

theorem Operator.level_chain_succ (op : Operator) :
    (Part.chain (op.precedence + 1)).level = op.level.tighter := by
  cases op <;> rfl

theorem Token.Spelled.operator_of_kind {t : Token} (h : t.Spelled) (hk : t.kind = .operator) :
    ∃ op : Operator, t = (Leaf.operator op).token := by
  cases h with
  | operator op => exact ⟨op, rfl⟩
  | number l => cases hk
  | opening => cases hk
  | closing => cases hk

/-- A run ends in an operand. -/
theorem ReversePolish.Reorders.run_ends {ts out : List Token} (h : Reorders .run ts out) :
    ts = [] ∨ ∃ before t, ts = before ++ [t] ∧ t.endsOperand = true := by
  cases h with
  | nothing => exact Or.inl rfl
  | @number ts out t _ hk => exact Or.inr ⟨ts, t, rfl, by simp [Token.endsOperand, Token.isNumber, hk]⟩
  | @group ts out inner inside opening closing _ _ _ hclose =>
    exact Or.inr ⟨ts ++ opening :: inner, closing, by simp, by simp [Token.endsOperand, hclose]⟩

/-- Nothing stands in a run before an operand that is not beside another. -/
theorem ReversePolish.Reorders.run_eq_nil {ts out : List Token} (h : Reorders .run ts out)
    {t : Token} {after : List Token} (ht : t.beginsOperand = true)
    (hapart : ¬ Juxtaposed (ts ++ t :: after)) : ts = [] := by
  rcases h.run_ends with hnil | ⟨before, last, rfl, hlast⟩
  · exact hnil
  · exact absurd ⟨before, last, t, after, by simp, hlast, ht⟩ hapart

/-- **The counting argument.**  A part of the loose grammar without operands side
    by side has at most one operand more than operators, and where it has one more
    it is a phrase of the grammar of formulas. -/
theorem ReversePolish.Reorders.surplus_le {part : Part} {ts out : List Token}
    (h : Reorders part ts out) (hspelled : ∀ t ∈ ts, t.Spelled) (hapart : ¬ Juxtaposed ts) :
    surplus ts ≤ 1 ∧ (surplus ts = 1 → Derives part.level ts) := by
  induction h with
  | nothing => exact ⟨by decide, nofun⟩
  | @number ts out t hrun hk _ =>
    have hbegins : t.beginsOperand = true := by simp [Token.beginsOperand, Token.isNumber, hk]
    obtain rfl := hrun.run_eq_nil hbegins hapart
    refine ⟨Int.le_of_eq (surplus_number hk), fun _ => .number ?_⟩
    simp [Token.isNumber, hk]
  | @group ts out inner inside opening closing hrun hopen _ hclose _ ihinner =>
    have hbegins : opening.beginsOperand = true := by simp [Token.beginsOperand, hopen]
    obtain rfl := hrun.run_eq_nil hbegins hapart
    have hinner : ¬ Juxtaposed inner := fun hjuxtaposed =>
      hapart ((hjuxtaposed.append_right [closing]).append_left [opening])
    obtain ⟨hle, hderives⟩ := ihinner (fun t ht => hspelled t (by simp [ht])) hinner
    have hsurplus : surplus ([] ++ opening :: (inner ++ [closing])) = surplus inner := by
      rw [List.nil_append, surplus_cons, surplus_append, surplus_paren (Or.inl hopen),
        surplus_paren (Or.inr hclose)]
      omega
    rw [hsurplus]
    exact ⟨hle, fun hone => .group hopen hclose (hderives hone)⟩
  | chain least _ ih =>
    obtain ⟨hle, hderives⟩ := ih hspelled hapart
    exact ⟨hle, fun hone => (hderives hone).of_factor _⟩
  | @operation left leftOut right rightOut op least hop hleast _ _ ihl ihr =>
    have hl : ¬ Juxtaposed left := fun hjuxtaposed => hapart (hjuxtaposed.append_right _)
    have hr : ¬ Juxtaposed right := fun hjuxtaposed =>
      hapart ((hjuxtaposed.append_left [op]).append_left left)
    obtain ⟨hlle, hlderives⟩ := ihl (fun t ht => hspelled t (by simp [ht])) hl
    obtain ⟨hrle, hrderives⟩ := ihr (fun t ht => hspelled t (by simp [ht])) hr
    have hsurplus : surplus (left ++ op :: right) = surplus left - 1 + surplus right := by
      rw [surplus_append, surplus_cons, surplus_operator hop]
      omega
    rw [hsurplus]
    refine ⟨by omega, fun hone => ?_⟩
    obtain ⟨operator, rfl⟩ := (hspelled op (by simp)).operator_of_kind hop
    have hleft := hlderives (by omega)
    have hright := hrderives (by omega)
    rw [operator.token_precedence] at hleft hright hleast
    rw [operator.level_chain] at hleft
    rw [operator.level_chain_succ] at hright
    exact (Derives.operation operator hleft hright).of_operator_level hleast

/-- A phrase of the grammar has one operand more than operators. -/
theorem Derives.surplus_eq {level : Level} {ts : List Token} (h : Derives level ts) :
    surplus ts = 1 := by
  induction h with
  | number ht => exact surplus_number (by simpa [Token.isNumber] using ht)
  | @group opening closing inner hopen hclose _ ih =>
    rw [surplus_cons, surplus_append, surplus_paren (Or.inl hopen), surplus_paren (Or.inr hclose), ih]
    omega
  | factor _ ih => exact ih
  | term _ ih => exact ih
  | @operation operator left right _ _ ihl ihr =>
    rw [surplus_append, surplus_cons _ right, ihl, ihr, surplus_operator rfl]
    omega

/-! ### Where every operand is there -/

/-- Wherever an operand is expected, at the start or behind an operator or an open
    parenthesis, one begins; the flag tells whether one is expected first. -/
def Supplied : Bool → List Token → Prop
  | expected, [] => expected = false
  | expected, t :: ts => (expected = true → t.beginsOperand = true) ∧ Supplied t.expectsOperand ts

/-- One token settles what was expected before it and leaves what it expects. -/
theorem Token.Spelled.surplus_add {t : Token} (h : t.Spelled) :
    surplus [t] + t.expectsOperand.toNat = t.beginsOperand.toNat := by
  cases h with
  | number l => rfl
  | operator op => rfl
  | opening => rfl
  | closing => rfl

theorem Supplied.toNat_le {expected : Bool} {t : Token} {ts : List Token}
    (h : Supplied expected (t :: ts)) : expected.toNat ≤ t.beginsOperand.toNat := by
  cases expected with
  | false => exact Nat.zero_le _
  | true => rw [h.1 rfl]

theorem Supplied.le_surplus {expected : Bool} {ts : List Token} (h : Supplied expected ts)
    (hspelled : ∀ t ∈ ts, t.Spelled) : (expected.toNat : Int) ≤ surplus ts := by
  induction ts generalizing expected with
  | nil =>
    obtain rfl : expected = false := h
    exact Int.le_refl 0
  | cons t ts ih =>
    have hrest := ih h.2 fun t ht => hspelled t (by simp [ht])
    have hstep := (hspelled t (by simp)).surplus_add
    have hexpected := h.toNat_le
    rw [surplus_cons]
    omega

theorem Token.endsOperand_expects {t : Token} (h : t.endsOperand = true) :
    t.expectsOperand = false := by
  simp only [endsOperand, isNumber, Bool.or_eq_true, beq_iff_eq] at h
  rcases h with hk | hk <;> simp [expectsOperand, isOperator, hk]

/-- **Where every operand is there, two of them side by side leave one over.** -/
theorem Supplied.lt_surplus {expected : Bool} {ts : List Token} (h : Supplied expected ts)
    (hspelled : ∀ t ∈ ts, t.Spelled) (hjuxtaposed : Juxtaposed ts) :
    (expected.toNat : Int) < surplus ts := by
  induction ts generalizing expected with
  | nil => exact absurd hjuxtaposed not_juxtaposed_nil
  | cons a ts ih =>
    have hstep := (hspelled a (by simp)).surplus_add
    have hexpected := h.toNat_le
    have hspelled' : ∀ t ∈ ts, t.Spelled := fun t ht => hspelled t (by simp [ht])
    rw [surplus_cons]
    cases ts with
    | nil => exact absurd hjuxtaposed (not_juxtaposed_singleton a)
    | cons b ts =>
      rcases juxtaposed_cons_cons.mp hjuxtaposed with ⟨ha, hb⟩ | hrest
      · -- `b` stands where no operand was expected, and it is one more
        have hnext := h.2.2.le_surplus fun t ht => hspelled' t (by simp [ht])
        have hstep' := (hspelled' b (by simp)).surplus_add
        rw [hb] at hstep'
        rw [Token.endsOperand_expects ha] at hstep
        rw [surplus_cons b ts]
        simp only [Bool.toNat_true, Bool.toNat_false] at hstep hstep'
        omega
      · have hrest := ih h.2 hspelled' hrest
        omega

/-! ### The height of the stack -/

/-- How many numbers are on the stack after one more token of a reverse Polish
    order; nothing if it is an operator that finds fewer than two. -/
def heightStep (height : Nat) (t : Token) : Option Nat :=
  if t.isOperator then
    if 2 ≤ height then some (height - 1) else none
  else some (height + 1)

def heightAfter : Nat → List Token → Option Nat
  | height, [] => some height
  | height, t :: ts => (heightStep height t).bind (heightAfter · ts)

theorem kind_of_ordered {t : Token} (h : ordered t = true) :
    t.kind = .number ∨ t.kind = .operator := by
  simpa [ordered, Token.isNumber, Token.isOperator] using h

theorem heightStep_eq_some {t : Token} (ht : ordered t = true) {height next : Nat}
    (h : heightStep height t = some next) : (next : Int) = height + surplus [t] ∧ 0 < next := by
  rcases kind_of_ordered ht with hk | hk
  · simp only [heightStep, Token.isOperator, hk] at h
    cases h
    rw [surplus_number hk]
    omega
  · simp only [heightStep, Token.isOperator, hk, beq_self_eq_true, if_true] at h
    split at h
    · cases h
      rw [surplus_operator hk]
      omega
    · cases h

theorem heightStep_eq_none {t : Token} {height : Nat} (h : heightStep height t = none) :
    t.kind = .operator ∧ height < 2 := by
  rw [heightStep] at h
  split at h
  · next hop =>
    split at h
    · cases h
    · exact ⟨by simpa [Token.isOperator] using hop, by omega⟩
  · cases h

/-- **The height ends at the surplus**, and no token takes the last number away. -/
theorem heightAfter_eq_some {ts : List Token} (hts : ∀ t ∈ ts, ordered t = true)
    {height last : Nat} (h : heightAfter height ts = some last) :
    (last : Int) = height + surplus ts ∧ (ts ≠ [] → 0 < last) := by
  induction ts generalizing height with
  | nil =>
    cases h
    exact ⟨(Int.add_zero _).symm, fun hne => absurd rfl hne⟩
  | cons t ts ih =>
    obtain ⟨next, hnext, h⟩ := Option.bind_eq_some_iff.mp h
    obtain ⟨hstep, hpos⟩ := heightStep_eq_some (hts t (by simp)) hnext
    obtain ⟨hlast, hrest⟩ := ih (fun t ht => hts t (by simp [ht])) h
    rw [surplus_cons]
    refine ⟨by omega, fun _ => ?_⟩
    cases ts with
    | nil => cases h; exact hpos
    | cons t ts => exact hrest (by simp)

/-- What stands before an operator in a reverse Polish order leaves it fewer than
    two numbers. -/
def Short (height : Nat) (before : List Token) : Prop :=
  ∃ found, heightAfter height before = some found ∧ found < 2

/-- Where the height stops there is an operator that is short of an operand. -/
theorem exists_short {ts : List Token} {height : Nat} (h : heightAfter height ts = none) :
    ∃ before op after, ts = before ++ op :: after ∧ op.kind = .operator ∧ Short height before := by
  induction ts generalizing height with
  | nil => cases h
  | cons t ts ih =>
    cases hstep : heightStep height t with
    | none =>
      obtain ⟨hk, hlt⟩ := heightStep_eq_none hstep
      exact ⟨[], t, ts, rfl, hk, height, rfl, hlt⟩
    | some next =>
      rw [heightAfter, hstep, Option.bind_some] at h
      obtain ⟨before, op, after, rfl, hk, found, hfound, hlt⟩ := ih h
      refine ⟨t :: before, op, after, rfl, hk, found, ?_, hlt⟩
      rw [heightAfter, hstep, Option.bind_some, hfound]

/-! ### The evaluator -/

/-- The failures that an operator with two operands may give. -/
def Arithmetic (kind : FailureKind) : Prop :=
  kind = .divisionByZero ∨ kind = .calculationError ∨ kind = .numberOutOfRange

theorem Operator.outcome_eq_error {op : Operator} {a b : Float} {failure : Failure}
    (h : op.outcome a b = .error failure) : ∃ kind, failure = .of kind ∧ Arithmetic kind := by
  rw [outcome] at h
  split at h
  · cases h; exact ⟨_, rfl, Or.inl rfl⟩
  · split at h
    · cases h; exact ⟨_, rfl, Or.inr (Or.inl rfl)⟩
    · split at h
      · cases h; exact ⟨_, rfl, Or.inr (Or.inr rfl)⟩
      · cases h

namespace ReversePolish

/-- An operation fails: what stands before it in a reverse Polish order leaves two
    numbers on which its operator has no result. -/
def FailsAt (stack : List Float) (before : List Token) (op : Operator) (kind : FailureKind) :
    Prop :=
  ∃ a b below, run stack (before.map Token.text) = .ok (b :: a :: below) ∧
    op.outcome a b = fail kind ∧ Arithmetic kind

theorem step_number {t : Token} (hspelled : t.Spelled) (hk : t.kind = .number) {x : Float}
    (hx : checkOperand t.text = .ok x) (stack : List Float) : step stack t.text = .ok (x :: stack) := by
  cases hspelled with
  | number l =>
    have hnumeral : (readFloat? l.text).isSome = true := by rw [readFloat?_literal]; rfl
    rw [step_operand hnumeral, hx]
    rfl
  | operator op => cases hk
  | opening => cases hk
  | closing => cases hk

theorem exists_two_of_length {stack : List Float} (h : 2 ≤ stack.length) :
    ∃ b a below, stack = b :: a :: below := by
  cases stack with
  | nil => simp at h
  | cons b rest =>
    cases rest with
    | nil => simp at h
    | cons a below => exact ⟨b, a, below, rfl⟩

/-- **One token**: the height of the stack follows, or the operator is short, or it
    has no result. -/
theorem step_token {t : Token} (hspelled : t.Spelled) (hordered : ordered t = true)
    (hoperand : Operands [t]) (stack : List Float) :
    (∃ stack', step stack t.text = .ok stack' ∧ heightStep stack.length t = some stack'.length) ∨
    (step stack t.text = fail .missingOperand ∧ heightStep stack.length t = none) ∨
    ∃ op kind, t = (Leaf.operator op).token ∧ FailsAt stack [] op kind ∧
      step stack t.text = fail kind := by
  rcases kind_of_ordered hordered with hk | hk
  · obtain ⟨x, hx⟩ := hoperand t (by simp) hk
    refine Or.inl ⟨x :: stack, step_number hspelled hk hx stack, ?_⟩
    simp [heightStep, Token.isOperator, hk]
  · obtain ⟨op, rfl⟩ := hspelled.operator_of_kind hk
    by_cases hshort : stack.length < 2
    · refine Or.inr (Or.inl ⟨step_operator_short hshort op, ?_⟩)
      simp [heightStep, Token.isOperator, hk, hshort]
    · obtain ⟨b, a, below, rfl⟩ := exists_two_of_length (Nat.le_of_not_lt hshort)
      have hstep : step (b :: a :: below) (Leaf.operator op).token.text =
          (· :: below) <$> op.outcome a b := step_operator op a b below
      rw [hstep]
      cases hx : op.outcome a b with
      | ok x =>
        refine Or.inl ⟨x :: below, rfl, ?_⟩
        simp [heightStep, Token.isOperator, Leaf.token]
      | error failure =>
        obtain ⟨kind, rfl, harithmetic⟩ := Operator.outcome_eq_error hx
        exact Or.inr (Or.inr ⟨op, kind, rfl, ⟨a, b, below, rfl, hx, harithmetic⟩, rfl⟩)

/-- **A run** follows the height to its end, or ends at an operator that is short, or
    at one that has no result. -/
theorem run_tokens {ts : List Token} (hspelled : ∀ t ∈ ts, t.Spelled)
    (hordered : ∀ t ∈ ts, ordered t = true) (hoperands : Operands ts) (stack : List Float) :
    (∃ stack', run stack (ts.map Token.text) = .ok stack' ∧
      heightAfter stack.length ts = some stack'.length) ∨
    (run stack (ts.map Token.text) = fail .missingOperand ∧ heightAfter stack.length ts = none) ∨
    ∃ before op after kind, ts = before ++ (Leaf.operator op).token :: after ∧
      FailsAt stack before op kind ∧ run stack (ts.map Token.text) = fail kind := by
  induction ts generalizing stack with
  | nil => exact Or.inl ⟨stack, rfl, rfl⟩
  | cons t ts ih =>
    obtain ⟨hoperand, hoperands⟩ := @Operands.append [t] ts hoperands
    have ih := ih (fun t ht => hspelled t (by simp [ht])) (fun t ht => hordered t (by simp [ht]))
      hoperands
    rw [List.map_cons, run_cons, heightAfter]
    rcases step_token (hspelled t (by simp)) (hordered t (by simp)) hoperand stack with
      ⟨next, hnext, hheight⟩ | ⟨hshort, hheight⟩ | ⟨op, kind, rfl, hfails, hstep⟩
    · rw [hnext, hheight, Outcome.ok_bind, Option.bind_some]
      rcases ih next with hok | hshort | ⟨before, op, after, kind, rfl, hfails, hrun⟩
      · exact Or.inl hok
      · exact Or.inr (Or.inl hshort)
      · obtain ⟨a, b, below, hbefore, hresult⟩ := hfails
        refine Or.inr (Or.inr ⟨t :: before, op, after, kind, rfl, ⟨a, b, below, ?_, hresult⟩, hrun⟩)
        rw [List.map_cons, run_cons, hnext]
        exact hbefore
    · rw [hshort, hheight]
      exact Or.inr (Or.inl ⟨rfl, rfl⟩)
    · rw [hstep]
      exact Or.inr (Or.inr ⟨[], op, ts, kind, rfl, hfails, rfl⟩)

end ReversePolish

end Reckoner
