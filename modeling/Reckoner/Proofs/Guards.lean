/-
  Reckoner/Proofs/Guards.lean
  ===========================
  **Guards.**  Four of the operations that a calculation is made of have no answer
  for some arguments: looking up a place in a list that is too short for it, taking
  the top of an empty stack, reading a number off a text that is no numeral, and
  dividing by zero.  The calculator asks before it uses any of them.  In its
  definitions question and use are one `match`, so nothing in them could go wrong.

  Here the two stand apart.  `Guarded` is the calculator over the bare operations,
  tokens looked up by their places and stacks taken apart one by one, and each bare
  operation is a fault where it has no answer.  No fault ever comes of it, and it
  gives what the calculator gives (`Guarded.toReversePolish_eq`,
  `Guarded.evaluate_eq`, `Guarded.calculate_eq`).

  The bit that the pass over signs carries along is thereby shown to be what a look
  at the token before would tell (`Guarded.fuseAt_eq`).
-/
import Mathlib.Data.List.Basic
import Reckoner.Calculator
import Reckoner.Proofs.Outcome
import Reckoner.Proofs.Signs

namespace Reckoner

open Reckoner.Number Reckoner.Text ReversePolish

/-- An operation was used where it has no answer. -/
inductive Fault where
  | noItem (place : Nat)
  | emptyStack
  | noNumeral (text : String)
  | zeroDivisor
deriving DecidableEq, Repr

/-- What a calculation over bare operations comes to: an outcome, or a fault. -/
abbrev Attempt := ExceptT Failure (Except Fault)

namespace Attempt

variable {α β : Type}

/-- An outcome that was reached without a fault. -/
def reached (x : Outcome α) : Attempt α := ExceptT.mk (.ok x)

@[simp] theorem lift_outcome (x : Outcome α) : (liftM x : Attempt α) = reached x := rfl

@[simp] theorem lift_ok (a : α) :
    (liftM (.ok a : Except Fault α) : Attempt α) = reached (.ok a) := rfl

@[simp] theorem pure_eq (a : α) : (pure a : Attempt α) = reached (.ok a) := rfl

@[simp] theorem reached_ok_bind (a : α) (f : α → Attempt β) :
    reached (.ok a) >>= f = f a := rfl

/-- Steps that are reached without a fault are so one behind the other. -/
theorem reached_bind {x : Outcome α} {f : α → Attempt β} {g : α → Outcome β}
    (h : ∀ a, f a = reached (g a)) : reached x >>= f = reached (x >>= g) := by
  cases x with
  | ok a => exact h a
  | error failure => rfl

@[simp] theorem map_reached (f : α → β) (x : Outcome α) : f <$> reached x = reached (f <$> x) := by
  cases x <;> rfl

end Attempt

namespace Guarded

open Attempt

/-! ### Bare operations -/

def item (ts : List Token) (place : Nat) : Except Fault Token :=
  match ts[place]? with
  | some t => .ok t
  | none => .error (.noItem place)

def pop {α : Type} : List α → Except Fault (α × List α)
  | [] => .error .emptyStack
  | top :: below => .ok (top, below)

def number (text : String) : Except Fault Float :=
  match readFloat? text with
  | some x => .ok x
  | none => .error (.noNumeral text)

def quotient (a b : Float) : Except Fault Float :=
  if isZero b then .error .zeroDivisor else .ok (a / b)

theorem item_append (before : List Token) (t : Token) (rest : List Token) :
    item (before ++ t :: rest) before.length = .ok t := by
  simp [item]

/-! ### Operands -/

def parseNumber (text : String) : Attempt Float := do
  if isFiniteNumeral text then
    let x ← number text
    if inSafeRange x then return x else (fail .numberOutOfRange : Outcome Float)
  else
    (fail .invalidNumber : Outcome Float)

theorem parseNumber_eq (text : String) :
    parseNumber text = reached (Reckoner.parseNumber text) := by
  rw [parseNumber, Reckoner.parseNumber, isFiniteNumeral, number]
  cases readFloat? text with
  | none => rfl
  | some x =>
    simp only [Option.any_some, checkNumber]
    cases x.isFinite with
    | false => rfl
    | true =>
      cases hx : inSafeRange x with
      | false => simp [hx]
      | true => simp [hx]

def checkOperand (text : String) : Attempt Float :=
  tryCatch (parseNumber text) fun _ => (fail .numberOutOfRange : Outcome Float)

theorem checkOperand_eq (text : String) :
    checkOperand text = reached (Reckoner.checkOperand text) := by
  rw [checkOperand, parseNumber_eq, Reckoner.checkOperand]
  cases Reckoner.parseNumber text <;> rfl

/-! ### Signs -/

/-- Whether an operand is expected at a place, by the token before it. -/
def expectsOperand (ts : List Token) (place : Nat) : Except Fault Bool :=
  if place = 0 then .ok true else Token.expectsOperand <$> item ts (place - 1)

/-- The number that the token `t` at a place is the sign of. -/
def numberBehind (ts : List Token) (place : Nat) (t : Token) : Except Fault (Option Token) := do
  if t.isMinus && (← expectsOperand ts place) && decide (place + 1 < ts.length) then
    return (some (← item ts (place + 1))).filter Token.isNumber
  else
    return none

def fuseAt (ts : List Token) (place : Nat) : Attempt (List Token) :=
  if place < ts.length then do
    let t ← item ts place
    match ← numberBehind ts place t with
    | some n =>
      if isFiniteNumeral n.negated.text then (n.negated :: ·) <$> fuseAt ts (place + 2)
      else (fail .invalidNumber : Outcome (List Token))
    | none => (t :: ·) <$> fuseAt ts (place + 1)
  else
    return []
termination_by ts.length - place

theorem expectsOperand_append (before rest : List Token) :
    expectsOperand (before ++ rest) before.length =
      .ok (before.getLast?.all Token.expectsOperand) := by
  rcases before.eq_nil_or_concat' with rfl | ⟨init, last, rfl⟩
  · rfl
  · have hplace : (init ++ [last]).length - 1 = init.length := by simp
    rw [expectsOperand, if_neg (by simp), hplace, List.append_assoc, List.singleton_append,
      item_append, List.getLast?_concat]
    rfl

theorem numberBehind_append (before : List Token) (t : Token) (rest : List Token) :
    numberBehind (before ++ t :: rest) before.length t =
      .ok (if before.getLast?.all Token.expectsOperand && t.isMinus then
        rest.head?.filter Token.isNumber else none) := by
  rw [numberBehind, expectsOperand_append, Bool.and_comm (before.getLast?.all _)]
  show ite _ _ _ = _
  cases t.isMinus && before.getLast?.all Token.expectsOperand with
  | false => rfl
  | true =>
    cases rest with
    | nil =>
      rw [if_neg (by simp)]
      rfl
    | cons next rest =>
      have hnext : item (before ++ t :: next :: rest) (before.length + 1) = .ok next := by
        simp [item]
      rw [if_pos (by simp), hnext]
      rfl

theorem fuseAt_append (before : List Token) (t : Token) (rest : List Token) :
    fuseAt (before ++ t :: rest) before.length =
      match if before.getLast?.all Token.expectsOperand && t.isMinus then
        rest.head?.filter Token.isNumber else none with
      | some n =>
        if isFiniteNumeral n.negated.text then
          (n.negated :: ·) <$> fuseAt (before ++ t :: rest) (before.length + 2)
        else reached (fail .invalidNumber)
      | none => (t :: ·) <$> fuseAt (before ++ t :: rest) (before.length + 1) := by
  rw [fuseAt, if_pos (by simp), item_append]
  simp only [lift_ok, reached_ok_bind, numberBehind_append]
  rfl

/-- **What the token before tells is what the pass over signs carries along.** -/
theorem fuseAt_eq (before rest : List Token) :
    fuseAt (before ++ rest) before.length =
      reached (fuseFrom (before.getLast?.all Token.expectsOperand) rest) := by
  generalize hexpected : before.getLast?.all Token.expectsOperand = expected
  induction expected, rest using fuseFrom.induct generalizing before with
  | case1 expected =>
    rw [fuseAt, if_neg (by simp)]
    rfl
  | case2 expected t =>
    have hend : fuseAt (before ++ [t]) (before.length + 1) = reached (.ok []) := by
      rw [fuseAt, if_neg (by simp)]
      rfl
    rw [fuseAt_append, hend, List.head?_nil, Option.filter_none, ite_self]
    rfl
  | case3 expected t next rest hsign hfinite ih =>
    -- What stands behind the pair looks back at the pair's number, which expects no operand.
    obtain ⟨hsigned, hnumber⟩ := Bool.and_eq_true_iff.mp hsign
    have hafter := ih (before ++ [t, next]) (by simp [Token.expectsOperand_of_isNumber hnumber])
    rw [List.append_assoc, List.length_append] at hafter
    rw [fuseAt_append, hexpected, if_pos hsigned, List.head?_cons, Option.filter_some,
      if_pos hnumber, fuseFrom, if_pos hsign]
    simp only [hfinite, if_true]
    exact (congrArg _ hafter).trans (map_reached _ _)
  | case4 expected t next rest hsign hfinite =>
    obtain ⟨hsigned, hnumber⟩ := Bool.and_eq_true_iff.mp hsign
    rw [fuseAt_append, hexpected, if_pos hsigned, List.head?_cons, Option.filter_some,
      if_pos hnumber, fuseFrom, if_pos hsign]
    simp only [hfinite]
    rfl
  | case5 expected t next rest hsign ih =>
    have hafter := ih (before ++ [t]) (by simp)
    rw [List.append_assoc, List.length_append] at hafter
    have hnone : (if expected && t.isMinus then (next :: rest).head?.filter Token.isNumber
        else none) = none := by
      cases hsigned : expected && t.isMinus with
      | false => rfl
      | true =>
        rw [hsigned, Bool.true_and] at hsign
        rw [if_pos rfl, List.head?_cons, Option.filter_some, if_neg hsign]
    rw [fuseAt_append, hexpected, hnone, fuseFrom, if_neg hsign]
    exact (congrArg _ hafter).trans (map_reached _ _)

theorem fuseSigns_eq (ts : List Token) : fuseAt ts 0 = reached (fuseSigns ts) :=
  fuseAt_eq [] ts

/-! ### The converter -/

/-- Takes tokens off a stack for as long as there is one and it leaves. -/
def letOut (leaves : Token → Bool) (stack : List Token) :
    Except Fault (List Token × List Token) :=
  if stack.isEmpty then
    .ok ([], [])
  else
    match _hpop : pop stack with
    | .error fault => .error fault
    | .ok (top, below) =>
      if leaves top then do
        let (sent, left) ← letOut leaves below
        return (top :: sent, left)
      else
        return ([], stack)
termination_by stack.length
decreasing_by
  cases stack with
  | nil => cases _hpop
  | cons t ts =>
    cases _hpop
    exact Nat.lt_succ_self _

theorem letOut_eq (leaves : Token → Bool) (stack : List Token) :
    letOut leaves stack = .ok (stack.takeWhile leaves, stack.dropWhile leaves) := by
  induction stack with
  | nil =>
    rw [letOut]
    rfl
  | cons top below ih =>
    rw [letOut, if_neg (by simp)]
    simp only [pop, ih]
    cases htop : leaves top with
    | false => simp [htop, pure, Except.pure]
    | true => simp [htop, bind, Except.bind, pure, Except.pure]

def reorder (stack : List Token) : List Token → Attempt (List Token)
  | [] => do
    let (sent, left) ← letOut insideGroup stack
    if left.isEmpty then return sent else (fail .mismatchedParentheses : Outcome (List Token))
  | t :: rest =>
    match t.kind with
    | .number => do
      let _ ← checkOperand t.text
      (t :: ·) <$> reorder stack rest
    | .operator => do
      let (sent, left) ← letOut (leavesFor t) stack
      (sent ++ ·) <$> reorder (t :: left) rest
    | .leftParen => reorder (t :: stack) rest
    | .rightParen => do
      let (sent, left) ← letOut insideGroup stack
      if left.isEmpty then
        (fail .mismatchedParentheses : Outcome (List Token))
      else
        let (_, outside) ← pop left
        (sent ++ ·) <$> reorder outside rest
    | .other _ => throw (.invalidToken t.text)

theorem reorder_eq (ts : List Token) :
    ∀ stack : List Token, reorder stack ts = reached (ReversePolish.reorder stack ts) := by
  induction ts with
  | nil =>
    intro stack
    rw [reorder, letOut_eq, ReversePolish.reorder, drain]
    simp only [lift_ok, reached_ok_bind]
    by_cases hall : stack.all insideGroup = true
    · have hstack := List.all_eq_true.mp hall
      rw [if_pos hall, List.dropWhile_eq_nil_iff.mpr hstack, List.takeWhile_eq_self_iff.mpr hstack]
      rfl
    · have hleft : stack.dropWhile insideGroup ≠ [] := fun hnil =>
        hall (List.all_eq_true.mpr (List.dropWhile_eq_nil_iff.mp hnil))
      rw [if_neg hall, if_neg (by simpa using hleft)]
      rfl
  | cons t ts ih =>
    intro stack
    rw [reorder, ReversePolish.reorder]
    cases t.kind with
    | number =>
      simp only [checkOperand_eq, ih]
      exact reached_bind fun x => map_reached _ _
    | operator =>
      simp only [letOut_eq, ih, lift_ok, reached_ok_bind, map_reached]
    | leftParen => exact ih (t :: stack)
    | rightParen =>
      simp only [letOut_eq, ih, lift_ok, reached_ok_bind]
      cases stack.dropWhile insideGroup with
      | nil => rfl
      | cons opening outside => exact map_reached _ _
    | other name => rfl

def ofTokens (tokens : List Token) : Attempt (List Token) := do
  let out ← reorder [] tokens
  if out.isEmpty then (fail .emptyExpression : Outcome (List Token)) else return out

theorem ofTokens_eq (ts : List Token) : ofTokens ts = reached (ReversePolish.ofTokens ts) := by
  rw [ofTokens, reorder_eq]
  refine reached_bind fun out => ?_
  cases out <;> rfl

/-! ### The evaluator -/

def apply (operator : Operator) (a b : Float) : Attempt Float :=
  match operator with
  | .add => return a + b
  | .subtract => return a - b
  | .multiply => return a * b
  | .divide => if isZero b then (fail .divisionByZero : Outcome Float) else quotient a b

theorem apply_eq (op : Operator) (a b : Float) : apply op a b = reached (op.apply a b) := by
  cases op with
  | add => rfl
  | subtract => rfl
  | multiply => rfl
  | divide =>
    rw [apply, Operator.apply, quotient]
    cases isZero b <;> rfl

def reduce (operator : Operator) (stack : List Float) : Attempt (List Float) :=
  if stack.length < 2 then
    (fail .missingOperand : Outcome (List Float))
  else do
    let (b, rest) ← pop stack
    let (a, below) ← pop rest
    let x ← apply operator a b
    let checked ← Operator.checkResult x
    return checked :: below

theorem reduce_eq (op : Operator) (stack : List Float) :
    reduce op stack = reached (ReversePolish.reduce op stack) := by
  rw [reduce]
  rcases stack with _ | ⟨b, _ | ⟨a, below⟩⟩
  · rfl
  · rfl
  · rw [if_neg (by simp), ReversePolish.reduce, Operator.combine]
    simp only [pop, lift_ok, reached_ok_bind, apply_eq]
    cases op.apply a b with
    | error failure => rfl
    | ok x =>
      show (liftM (Operator.checkResult x) : Attempt Float) >>= _ =
        reached (_ <$> Operator.checkResult x)
      cases Operator.checkResult x <;> rfl

def step (stack : List Float) (item : String) : Attempt (List Float) :=
  match Operator.ofText? item with
  | some operator => reduce operator stack
  | none =>
    if (readFloat? item).isSome then (· :: stack) <$> checkOperand item
    else throw (.invalidToken item)

theorem step_eq (stack : List Float) (item : String) :
    step stack item = reached (ReversePolish.step stack item) := by
  rw [step, ReversePolish.step]
  cases Operator.ofText? item with
  | some op => exact reduce_eq op stack
  | none =>
    simp only [checkOperand_eq, map_reached]
    cases (readFloat? item).isSome <;> rfl

theorem foldlM_step_eq (items : List String) :
    ∀ stack : List Float, items.foldlM step stack = reached (run stack items) := by
  induction items with
  | nil =>
    intro stack
    rfl
  | cons item items ih =>
    intro stack
    rw [List.foldlM_cons, step_eq, run, List.foldlM_cons]
    exact reached_bind ih

def evaluate (text : String) : Attempt Float := do
  let stack ← (words text).foldlM step []
  if stack.length = 1 then
    let (x, _) ← pop stack
    return x
  else
    (fail .invalidExpression : Outcome Float)

theorem evaluate_eq (text : String) : evaluate text = reached (ReversePolish.evaluate text) := by
  rw [evaluate, foldlM_step_eq, ReversePolish.evaluate, evaluateItems]
  refine reached_bind fun stack => ?_
  rcases stack with _ | ⟨x, _ | ⟨y, below⟩⟩
  · rfl
  · rfl
  · rw [if_neg (by simp)]
    rfl

/-! ### A whole calculation -/

def toReversePolish (expression : String) : Attempt String := do
  checkAlphabet expression
  checkParentheses expression
  let tokens ← tokenize expression
  let signed ← fuseAt tokens 0
  render <$> ofTokens signed

theorem toReversePolish_eq (text : String) :
    toReversePolish text = reached (Reckoner.toReversePolish text) := by
  rw [toReversePolish, Reckoner.toReversePolish]
  simp only [lift_outcome, fuseSigns_eq, ofTokens_eq, map_reached]
  refine reached_bind fun _ => reached_bind fun _ => reached_bind fun tokens => ?_
  exact reached_bind fun m => rfl

def calculate (expression : String) : Attempt Float := do
  evaluate (← toReversePolish expression)

theorem calculate_eq (text : String) : calculate text = reached (Reckoner.calculate text) := by
  rw [calculate, toReversePolish_eq]
  exact reached_bind evaluate_eq

end Guarded

end Reckoner
