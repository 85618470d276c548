/-
  Reckoner/Proofs/Order.lean
  ==========================
  **Which order the converter gives.**  The converter never asks whether an
  expression makes sense.  What it does with any list of tokens whose parentheses
  pair up is described by a grammar looser than the one of formulas: where a
  formula has one operand, a *run* of operands may stand, none or many.

      run       → (nothing) | run number | run '(' chain ')'
      chain n   → run | chain p op chain (p + 1)      p the precedence of op, n ≤ p

  Numbers leave at once, so a run leaves as it stands, and an operator leaves
  after all that derives from its two sides.  `Reorders` is this grammar together
  with the order in which its tokens leave.  The main statement is that it is
  exactly what the converter computes (`reorder_eq_ok_iff`).

  Towards the converter (`Reorders.reorder_append`) the induction is on the
  derivation.  Back (`Awaits.reorders`) it is on the tokens, and the invariant
  (`Awaits`) reads the stack as the derivation that is still open.
-/
import Mathlib.Data.List.TakeWhile
import Reckoner.ReversePolish
import Reckoner.Proofs.Outcome
import Reckoner.Proofs.Signs

namespace Reckoner.ReversePolish

/-! ### The loose grammar -/

/-- The parts of an expression: a run of operands, or a chain of runs whose
    operators outside parentheses have at least some precedence. -/
inductive Part where
  | run
  | chain (least : Nat)

/-- The tokens of a part, and the order in which they leave the converter. -/
inductive Reorders : Part → List Token → List Token → Prop where
  | nothing : Reorders .run [] []
  | number {ts out : List Token} {t : Token} :
      Reorders .run ts out → t.kind = .number → Reorders .run (ts ++ [t]) (out ++ [t])
  | group {ts out inner inside : List Token} {opening closing : Token} :
      Reorders .run ts out → opening.kind = .leftParen → Reorders (.chain 0) inner inside →
      closing.kind = .rightParen →
      Reorders .run (ts ++ opening :: (inner ++ [closing])) (out ++ inside)
  | chain {ts out : List Token} (least : Nat) :
      Reorders .run ts out → Reorders (.chain least) ts out
  | operation {left leftOut right rightOut : List Token} {op : Token} {least : Nat} :
      op.kind = .operator → least ≤ op.precedence →
      Reorders (.chain op.precedence) left leftOut →
      Reorders (.chain (op.precedence + 1)) right rightOut →
      Reorders (.chain least) (left ++ op :: right) (leftOut ++ rightOut ++ [op])

theorem Reorders.mono {ts out : List Token} {least less : Nat} (hle : less ≤ least)
    (h : Reorders (.chain least) ts out) : Reorders (.chain less) ts out := by
  cases h with
  | chain _ hrun => exact .chain less hrun
  | operation hop hleast hl hr => exact .operation hop (Nat.le_trans hle hleast) hl hr

/-- A token that has a place in the reverse Polish order: one that is no
    parenthesis. -/
def ordered (t : Token) : Bool := t.isNumber || t.isOperator

/-- All that leaves is what came in, without the parentheses. -/
theorem Reorders.perm {part : Part} {ts out : List Token} (h : Reorders part ts out) :
    out.Perm (ts.filter ordered) := by
  induction h with
  | nothing => exact .nil
  | number _ hk ih =>
    rw [List.filter_append]
    refine ih.append ?_
    simp [ordered, Token.isNumber, hk]
  | group _ hopen _ hclose ihts ihinner =>
    rw [List.filter_append]
    refine ihts.append ?_
    simpa [ordered, Token.isNumber, Token.isOperator, hopen, hclose] using ihinner
  | chain _ _ ih => exact ih
  | @operation left leftOut right rightOut op _ hop _ _ _ ihl ihr =>
    have hkept : (left ++ op :: right).filter ordered =
        left.filter ordered ++ op :: right.filter ordered := by
      simp [ordered, Token.isOperator, hop]
    rw [hkept, List.append_assoc]
    refine ihl.append ?_
    exact (List.perm_append_singleton op rightOut).trans (ihr.cons op)

theorem Reorders.mem {part : Part} {ts out : List Token} (h : Reorders part ts out) {t : Token}
    (ht : t ∈ out) : t ∈ ts :=
  List.mem_of_mem_filter (h.perm.mem_iff.mp ht)

/-! ### Operators on the stack -/

/-- Whether a token on the stack leaves for an operator of a precedence. -/
def binds (precedence : Nat) (top : Token) : Bool :=
  top.isOperator && decide (precedence ≤ top.precedence)

theorem leavesFor_eq_binds (t : Token) : leavesFor t = binds t.precedence := rfl

theorem binds_eq_true {precedence : Nat} {top : Token} :
    binds precedence top = true ↔ top.kind = .operator ∧ precedence ≤ top.precedence := by
  simp [binds, Token.isOperator]

theorem takeWhile_append_of_forall {p : Token → Bool} {waiting stack : List Token}
    (hw : ∀ t ∈ waiting, p t = true) (hs : ∀ t ∈ stack.head?, p t = false) :
    (waiting ++ stack).takeWhile p = waiting := by
  rw [List.takeWhile_append_of_pos hw]
  cases stack with
  | nil => simp
  | cons t stack => simp [hs t (by simp)]

theorem dropWhile_append_of_forall {p : Token → Bool} {waiting stack : List Token}
    (hw : ∀ t ∈ waiting, p t = true) (hs : ∀ t ∈ stack.head?, p t = false) :
    (waiting ++ stack).dropWhile p = stack := by
  rw [List.dropWhile_append_of_pos hw]
  cases stack with
  | nil => simp
  | cons t stack => simp [hs t (by simp)]

/-- A token that the tokens of a part may leave waiting on the stack. -/
def Part.Waits : Part → Token → Prop
  | .run, _ => False
  | .chain least, t => binds least t = true

theorem Part.Waits.kind {part : Part} {t : Token} (h : part.Waits t) : t.kind = .operator := by
  cases part with
  | run => exact h.elim
  | chain least => exact (binds_eq_true.mp h).1

theorem eq_nil_of_run_waits {waiting : List Token} (h : ∀ t ∈ waiting, Part.run.Waits t) :
    waiting = [] :=
  List.eq_nil_iff_forall_not_mem.mpr h

theorem insideGroup_of_operator {t : Token} (h : t.kind = .operator) : insideGroup t = true := by
  simp [insideGroup, h]

/-! ### One step of the converter -/

/-- What the converter asks of an operand. -/
def Operands (ts : List Token) : Prop :=
  ∀ t ∈ ts, t.kind = .number → ∃ x, checkOperand t.text = .ok x

theorem Operands.append {xs ys : List Token} (h : Operands (xs ++ ys)) :
    Operands xs ∧ Operands ys :=
  ⟨fun t ht => h t (List.mem_append_left ys ht), fun t ht => h t (List.mem_append_right xs ht)⟩

/-- All that can happen at a token: `Shunts t stack sent after` holds where the
    tokens `sent` leave for it and `after` is the stack behind it. -/
inductive Shunts : Token → List Token → List Token → List Token → Prop where
  | number {t : Token} {stack : List Token} {x : Float} :
      t.kind = .number → checkOperand t.text = .ok x → Shunts t stack [t] stack
  | operator {t : Token} {stack : List Token} :
      t.kind = .operator →
      Shunts t stack (stack.takeWhile (binds t.precedence))
        (t :: stack.dropWhile (binds t.precedence))
  | opening {t : Token} {stack : List Token} :
      t.kind = .leftParen → Shunts t stack [] (t :: stack)
  | closing {t opening : Token} {stack outside : List Token} :
      t.kind = .rightParen → stack.dropWhile insideGroup = opening :: outside →
      Shunts t stack (stack.takeWhile insideGroup) outside

theorem Shunts.reorder_cons {t : Token} {stack sent after : List Token}
    (h : Shunts t stack sent after) (rest : List Token) :
    reorder stack (t :: rest) = (sent ++ ·) <$> reorder after rest := by
  rw [reorder]
  cases h with
  | number hk hx =>
    simp only [hk, hx, Outcome.ok_bind]
    rfl
  | operator hk => simp only [hk, leavesFor_eq_binds]
  | opening hk => simp only [hk, Outcome.nil_append_map]
  | closing hk hstack => simp only [hk, hstack]

theorem Shunts.of_reorder {t : Token} {rest stack out : List Token}
    (h : reorder stack (t :: rest) = .ok out) :
    ∃ sent after tail, Shunts t stack sent after ∧ reorder after rest = .ok tail ∧
      sent ++ tail = out := by
  rw [reorder] at h
  cases hk : t.kind with
  | number =>
    simp only [hk] at h
    obtain ⟨x, hx, h⟩ := Outcome.bind_eq_ok.mp h
    obtain ⟨tail, htail, hout⟩ := Outcome.map_eq_ok.mp h
    exact ⟨[t], stack, tail, .number hk hx, htail, hout⟩
  | operator =>
    simp only [hk, leavesFor_eq_binds] at h
    obtain ⟨tail, htail, hout⟩ := Outcome.map_eq_ok.mp h
    exact ⟨_, _, tail, .operator hk, htail, hout⟩
  | leftParen =>
    simp only [hk] at h
    exact ⟨[], t :: stack, out, .opening hk, h, rfl⟩
  | rightParen =>
    simp only [hk] at h
    cases hstack : stack.dropWhile insideGroup with
    | nil => rw [hstack] at h; cases h
    | cons opening outside =>
      rw [hstack] at h
      obtain ⟨tail, htail, hout⟩ := Outcome.map_eq_ok.mp h
      exact ⟨_, outside, tail, .closing hk hstack, htail, hout⟩
  | other name =>
    simp only [hk] at h
    cases h

/-- Why the converter can stop at a token of a known kind. -/
inductive Stops : Token → List Token → FailureKind → Prop where
  | operand {t : Token} {stack : List Token} :
      t.kind = .number → (∀ x, checkOperand t.text ≠ .ok x) → Stops t stack .numberOutOfRange
  | unopened {t : Token} {stack : List Token} :
      t.kind = .rightParen → stack.dropWhile insideGroup = [] →
      Stops t stack .mismatchedParentheses

theorem Stops.reorder_cons {t : Token} {stack : List Token} {kind : FailureKind}
    (h : Stops t stack kind) (rest : List Token) : reorder stack (t :: rest) = fail kind := by
  rw [reorder]
  cases h with
  | operand hk hx =>
    have hchecked : checkOperand t.text = fail .numberOutOfRange := by
      rw [checkOperand] at hx ⊢
      split at hx
      · exact absurd rfl (hx _)
      · rfl
    simp only [hk, hchecked]
    rfl
  | unopened hk hstack => simp only [hk, hstack]

/-- At a token of a known kind the converter goes on or stops. -/
theorem shunts_or_stops {t : Token} (h : t.Spelled) (stack : List Token) :
    (∃ sent after, Shunts t stack sent after) ∨ ∃ kind, Stops t stack kind := by
  cases h with
  | number l =>
    by_cases hx : ∃ x, checkOperand l.text = .ok x
    · obtain ⟨x, hx⟩ := hx
      exact Or.inl ⟨_, _, .number rfl hx⟩
    · exact Or.inr ⟨_, .operand rfl fun x hok => hx ⟨x, hok⟩⟩
  | operator op => exact Or.inl ⟨_, _, .operator rfl⟩
  | opening => exact Or.inl ⟨_, _, .opening rfl⟩
  | closing =>
    cases hstack : stack.dropWhile insideGroup with
    | nil => exact Or.inr ⟨_, .unopened rfl hstack⟩
    | cons opening outside => exact Or.inl ⟨_, _, .closing rfl hstack⟩

theorem operands_of_reorder {ts : List Token} :
    ∀ {stack out : List Token}, reorder stack ts = .ok out → Operands ts := by
  induction ts with
  | nil => intro _ _ _ t ht; cases ht
  | cons t ts ih =>
    intro stack out h n hn hnk
    obtain ⟨sent, after, tail, hstep, htail, -⟩ := Shunts.of_reorder h
    rcases List.mem_cons.mp hn with rfl | hn
    · cases hstep with
      | number _ hx => exact ⟨_, hx⟩
      | operator hk => rw [hk] at hnk; cases hnk
      | opening hk => rw [hk] at hnk; cases hnk
      | closing hk _ => rw [hk] at hnk; cases hnk
    · exact ih htail n hn hnk

/-! ### From the grammar to the converter -/

theorem reorder_operator_append {op : Token} (hk : op.kind = .operator)
    {waiting stack : List Token} (hwait : ∀ t ∈ waiting, binds op.precedence t = true)
    (hstays : ∀ t ∈ stack.head?, binds op.precedence t = false) (rest : List Token) :
    reorder (waiting ++ stack) (op :: rest) = (waiting ++ ·) <$> reorder (op :: stack) rest := by
  rw [(Shunts.operator hk).reorder_cons, takeWhile_append_of_forall hwait hstays,
    dropWhile_append_of_forall hwait hstays]

theorem reorder_rightParen_append {opening closing : Token} (hopen : opening.kind = .leftParen)
    (hclose : closing.kind = .rightParen) {waiting : List Token}
    (hwait : ∀ t ∈ waiting, t.kind = .operator) (stack rest : List Token) :
    reorder (waiting ++ opening :: stack) (closing :: rest) =
      (waiting ++ ·) <$> reorder stack rest := by
  have hgroup : ∀ t ∈ waiting, insideGroup t = true :=
    fun t ht => insideGroup_of_operator (hwait t ht)
  have houtside : ∀ t ∈ (opening :: stack).head?, insideGroup t = false := by
    intro t ht
    cases ht
    simp [insideGroup, hopen]
  have hstep := Shunts.closing hclose (dropWhile_append_of_forall hgroup houtside)
  rw [hstep.reorder_cons, takeWhile_append_of_forall hgroup houtside]

/-- **A part leaves in its order, from any stack.**  Some of its operators may be
    waiting when its tokens are read; no more than those leave for what comes
    next, since the stack below holds nothing that the part could let out. -/
theorem Reorders.reorder_append {part : Part} {ts out : List Token} (h : Reorders part ts out) :
    ∀ (stack rest : List Token), Operands ts → (∀ t ∈ stack.head?, ¬ part.Waits t) →
      ∃ sent waiting, out = sent ++ waiting ∧ (∀ t ∈ waiting, part.Waits t) ∧
        reorder stack (ts ++ rest) = (sent ++ ·) <$> reorder (waiting ++ stack) rest := by
  induction h with
  | nothing =>
    intro stack rest _ _
    exact ⟨[], [], rfl, by simp, (Outcome.nil_append_map _).symm⟩
  | @number ts out t _ hk ih =>
    intro stack rest hops _
    obtain ⟨hts, ht⟩ := hops.append
    obtain ⟨x, hx⟩ := ht t (by simp) hk
    obtain ⟨sent, waiting, hout, hwait, heq⟩ := ih stack (t :: rest) hts (fun _ _ h => h)
    obtain rfl := eq_nil_of_run_waits hwait
    refine ⟨sent ++ [t], [], by simp [hout], by simp, ?_⟩
    rw [List.append_assoc, List.singleton_append, heq, List.nil_append,
      (Shunts.number hk hx).reorder_cons, Outcome.append_map_append_map]
  | @group ts out inner inside opening closing _ hopen _ hclose ihts ihinner =>
    intro stack rest hops _
    obtain ⟨hts, htail⟩ := hops.append
    have hinner : Operands inner := fun t ht => htail t (by simp [ht])
    obtain ⟨sent, waiting, hout, hwait, heq⟩ :=
      ihts stack (opening :: (inner ++ closing :: rest)) hts (fun _ _ h => h)
    obtain rfl := eq_nil_of_run_waits hwait
    have hopening : ∀ t ∈ (opening :: stack).head?, ¬ (Part.chain 0).Waits t := by
      intro t ht hwaits
      cases ht
      have := hwaits.kind
      rw [hopen] at this
      cases this
    obtain ⟨sent', waiting', hout', hwait', heq'⟩ :=
      ihinner (opening :: stack) (closing :: rest) hinner hopening
    have hclosing := reorder_rightParen_append hopen hclose (fun t ht => (hwait' t ht).kind) stack rest
    have hsplit : ts ++ opening :: (inner ++ [closing]) ++ rest =
        ts ++ (opening :: (inner ++ closing :: rest)) := by simp
    refine ⟨sent ++ (sent' ++ waiting'), [], by simp [hout, hout'], by simp, ?_⟩
    rw [hsplit, heq, List.nil_append, (Shunts.opening hopen).reorder_cons,
      Outcome.nil_append_map, heq', hclosing, Outcome.append_map_append_map sent',
      Outcome.append_map_append_map sent]
  | @chain ts out least _ ih =>
    intro stack rest hops _
    obtain ⟨sent, waiting, hout, hwait, heq⟩ := ih stack rest hops (fun _ _ h => h)
    exact ⟨sent, waiting, hout, fun t ht => (hwait t ht).elim, heq⟩
  | @operation left leftOut right rightOut op least hop hleast _ _ ihl ihr =>
    intro stack rest hops hstack
    obtain ⟨hl, htail⟩ := hops.append
    have hr : Operands right := fun t ht => htail t (by simp [ht])
    have hbelow : ∀ t ∈ stack.head?, ¬ (Part.chain op.precedence).Waits t := by
      intro t ht hwaits
      obtain ⟨hk, hle⟩ := binds_eq_true.mp hwaits
      exact hstack t ht (binds_eq_true.mpr ⟨hk, Nat.le_trans hleast hle⟩)
    obtain ⟨sent, waiting, hout, hwait, heq⟩ := ihl stack (op :: (right ++ rest)) hl hbelow
    have hstays : ∀ t ∈ stack.head?, binds op.precedence t = false :=
      fun t ht => Bool.eq_false_iff.mpr (hbelow t ht)
    have hpush := reorder_operator_append hop hwait hstays (right ++ rest)
    have htop : ∀ t ∈ (op :: stack).head?, ¬ (Part.chain (op.precedence + 1)).Waits t := by
      intro t ht hwaits
      cases ht
      exact Nat.not_succ_le_self _ (binds_eq_true.mp hwaits).2
    obtain ⟨sent', waiting', hout', hwait', heq'⟩ := ihr (op :: stack) rest hr htop
    refine ⟨sent ++ (waiting ++ sent'), waiting' ++ [op], by simp [hout, hout'], ?_, ?_⟩
    · intro t ht
      rcases List.mem_append.mp ht with ht | ht
      · obtain ⟨hk, hle⟩ := binds_eq_true.mp (hwait' t ht)
        exact binds_eq_true.mpr ⟨hk, by omega⟩
      · rw [List.mem_singleton.mp ht]
        exact binds_eq_true.mpr ⟨hop, hleast⟩
    · have hsplit : left ++ op :: right ++ rest = left ++ op :: (right ++ rest) := by simp
      rw [hsplit, heq, hpush, heq', Outcome.append_map_append_map waiting,
        Outcome.append_map_append_map sent, List.append_assoc waiting', List.singleton_append]

/-! ### From the converter to the grammar -/

/-- What the stack says of the tokens read so far: `Awaits stack past out` holds of
    the tokens `past` in front of the run that is being read, of which `out` have
    left.  Each operator on the stack has its left side behind it, and binds
    tighter than the operator below it; each parenthesis stands behind the run
    that its group will belong to. -/
inductive Awaits : List Token → List Token → List Token → Prop where
  | start : Awaits [] [] []
  | opened {stack past out ts tsOut : List Token} {opening : Token} :
      opening.kind = .leftParen → Awaits stack past out → Reorders .run ts tsOut →
      Awaits (opening :: stack) (past ++ ts ++ [opening]) (out ++ tsOut)
  | operator {stack past out left leftOut : List Token} {op : Token} :
      op.kind = .operator → (∀ top ∈ stack.head?, binds op.precedence top = false) →
      Awaits stack past out → Reorders (.chain op.precedence) left leftOut →
      Awaits (op :: stack) (past ++ left ++ [op]) (out ++ leftOut)

theorem Awaits.kind {stack past out : List Token} (h : Awaits stack past out) :
    ∀ t ∈ stack, t.kind = .operator ∨ t.kind = .leftParen := by
  induction h with
  | start => intro t ht; cases ht
  | opened hk _ _ ih =>
    intro t ht
    rcases List.mem_cons.mp ht with rfl | ht
    · exact Or.inr hk
    · exact ih t ht
  | operator hk _ _ _ ih =>
    intro t ht
    rcases List.mem_cons.mp ht with rfl | ht
    · exact Or.inl hk
    · exact ih t ht

/-- **Letting operators out closes their derivations.**  Whatever leaves for an
    operator of a precedence becomes, with the chain that is being read, one chain
    of that precedence. -/
theorem Awaits.pop {stack past out : List Token} (h : Awaits stack past out) :
    ∀ {least less : Nat} {ts tsOut : List Token}, Reorders (.chain least) ts tsOut →
      less ≤ least → (∀ top ∈ stack.head?, binds least top = false) →
      ∃ past' out' ts' tsOut', Awaits (stack.dropWhile (binds less)) past' out' ∧
        Reorders (.chain less) ts' tsOut' ∧ past' ++ ts' = past ++ ts ∧
        out' ++ tsOut' = out ++ tsOut ++ stack.takeWhile (binds less) := by
  induction h with
  | start =>
    intro least less ts tsOut hts hle _
    exact ⟨[], [], ts, tsOut, .start, hts.mono hle, rfl, by simp⟩
  | @opened stack past out run runOut opening hk hstack hrun _ =>
    intro least less ts tsOut hts hle _
    have hstays : binds less opening = false := by simp [binds, Token.isOperator, hk]
    refine ⟨past ++ run ++ [opening], out ++ runOut, ts, tsOut, ?_, hts.mono hle, rfl, ?_⟩
    · rw [List.dropWhile_cons_of_neg (by simp [hstays])]
      exact .opened hk hstack hrun
    · rw [List.takeWhile_cons_of_neg (by simp [hstays]), List.append_nil]
  | @operator stack past out left leftOut op hk hbelow hstack hleft ih =>
    intro least less ts tsOut hts hle htop
    have hop : op.precedence < least := by
      have := htop op (by simp)
      simp only [binds, Token.isOperator, hk, beq_self_eq_true, Bool.true_and,
        decide_eq_false_iff_not] at this
      omega
    by_cases hless : less ≤ op.precedence
    · have hleaves : binds less op = true := binds_eq_true.mpr ⟨hk, hless⟩
      have hclosed : Reorders (.chain op.precedence) (left ++ op :: ts)
          (leftOut ++ tsOut ++ [op]) :=
        .operation hk (Nat.le_refl _) hleft (hts.mono hop)
      obtain ⟨past', out', ts', tsOut', hawaits, hchain, hpast, hout⟩ := ih hclosed hless hbelow
      refine ⟨past', out', ts', tsOut', ?_, hchain, ?_, ?_⟩
      · rwa [List.dropWhile_cons_of_pos hleaves]
      · simp [hpast]
      · rw [List.takeWhile_cons_of_pos hleaves]
        simp [hout]
    · have hstays : binds less op = false := by simp [binds, hless]
      refine ⟨past ++ left ++ [op], out ++ leftOut, ts, tsOut, ?_, hts.mono hle, rfl, ?_⟩
      · rw [List.dropWhile_cons_of_neg (by simp [hstays])]
        exact .operator hk hbelow hstack hleft
      · rw [List.takeWhile_cons_of_neg (by simp [hstays]), List.append_nil]

/-- A run binds tighter than any operator that waits below it. -/
theorem Awaits.pop_run {stack past out ts tsOut : List Token} (h : Awaits stack past out)
    (hrun : Reorders .run ts tsOut) (less : Nat) :
    ∃ past' out' ts' tsOut', Awaits (stack.dropWhile (binds less)) past' out' ∧
      Reorders (.chain less) ts' tsOut' ∧ past' ++ ts' = past ++ ts ∧
      out' ++ tsOut' = out ++ tsOut ++ stack.takeWhile (binds less) := by
  let least := less + (stack.head?.map Token.precedence).getD 0 + 1
  refine h.pop (.chain least hrun) (by omega) fun top htop => ?_
  have : (stack.head?.map Token.precedence).getD 0 = top.precedence := by
    rw [Option.mem_def.mp htop]; rfl
  simp only [binds, Bool.and_eq_false_iff, decide_eq_false_iff_not]
  exact Or.inr (by omega)

theorem Awaits.insideGroup_eq {stack past out : List Token} (h : Awaits stack past out) :
    ∀ t ∈ stack, insideGroup t = binds 0 t := by
  intro t ht
  rcases h.kind t ht with hk | hk <;> simp [insideGroup, binds, Token.isOperator, hk]

theorem takeWhile_congr {p q : Token → Bool} {ts : List Token} (h : ∀ t ∈ ts, p t = q t) :
    ts.takeWhile p = ts.takeWhile q ∧ ts.dropWhile p = ts.dropWhile q := by
  induction ts with
  | nil => exact ⟨rfl, rfl⟩
  | cons t ts ih =>
    obtain ⟨htake, hdrop⟩ := ih fun t ht => h t (by simp [ht])
    simp [List.takeWhile_cons, List.dropWhile_cons, h t (by simp), htake, hdrop]

theorem binds_head_dropWhile (least : Nat) (stack : List Token) :
    ∀ top ∈ (stack.dropWhile (binds least)).head?, binds least top = false := by
  intro top htop
  have := List.head?_dropWhile_not (binds least) stack
  rwa [Option.mem_def.mp htop] at this

/-- **A closing parenthesis makes a group of what was read since its open one**, and
    the group goes on with the run in front of that. -/
theorem Awaits.close {stack past out run runOut outside : List Token} {opening closing : Token}
    (h : Awaits stack past out) (hrun : Reorders .run run runOut)
    (hclose : closing.kind = .rightParen)
    (hstack : stack.dropWhile (binds 0) = opening :: outside) :
    ∃ past' out' run' runOut', Awaits outside past' out' ∧ Reorders .run run' runOut' ∧
      past' ++ run' = past ++ run ++ [closing] ∧
      out' ++ runOut' = out ++ runOut ++ stack.takeWhile (binds 0) := by
  obtain ⟨past', out', ts, tsOut, hrest, hchain, hpast, hout⟩ := h.pop_run hrun 0
  have hstays := binds_head_dropWhile 0 stack opening (by rw [hstack]; rfl)
  rw [hstack] at hrest
  cases hrest with
  | operator hop _ _ _ => simp [binds, Token.isOperator, hop] at hstays
  | @opened _ past'' out'' before beforeOut _ hopen hawaits hbefore =>
    refine ⟨past'', out'', before ++ opening :: (ts ++ [closing]), beforeOut ++ tsOut, hawaits,
      .group hbefore hopen hchain hclose, ?_, ?_⟩
    · rw [← hpast]
      simp
    · rw [← hout, List.append_assoc]

/-- What the converter makes of the tokens that are left, together with what has
    left already, is an order of all of them. -/
theorem Awaits.reorders {ts : List Token} :
    ∀ {stack past out run runOut tail : List Token}, Awaits stack past out →
      Reorders .run run runOut → reorder stack ts = .ok tail →
      Reorders (.chain 0) (past ++ run ++ ts) (out ++ runOut ++ tail) := by
  induction ts with
  | nil =>
    intro stack past out run runOut tail hawaits hrun h
    rw [reorder, drain] at h
    split at h
    · next hall =>
      cases h
      rw [List.all_eq_true] at hall
      have hall' : ∀ t ∈ stack, binds 0 t = true :=
        fun t ht => by rw [← hawaits.insideGroup_eq t ht]; exact hall t ht
      obtain ⟨past', out', ts', tsOut', hrest, hchain, hpast, hout⟩ := hawaits.pop_run hrun 0
      rw [List.dropWhile_eq_nil_iff.mpr hall'] at hrest
      rw [List.takeWhile_eq_self_iff.mpr hall'] at hout
      cases hrest
      rw [List.append_nil, ← hpast, ← hout]
      exact hchain
    · cases h
  | cons t ts ih =>
    intro stack past out run runOut tail hawaits hrun h
    obtain ⟨sent, after, tail, hstep, htail, rfl⟩ := Shunts.of_reorder h
    cases hstep with
    | number hk _ =>
      have := ih hawaits (.number hrun hk) htail
      simpa using this
    | operator hk =>
      obtain ⟨past', out', ts', tsOut', hrest, hchain, hpast, hout⟩ :=
        hawaits.pop_run hrun t.precedence
      have hbelow := binds_head_dropWhile t.precedence stack
      have := ih (.operator hk hbelow hrest hchain) .nothing htail
      rw [hpast, hout] at this
      simpa using this
    | opening hk =>
      have := ih (.opened hk hawaits hrun) .nothing htail
      simpa using this
    | closing hk hstack =>
      obtain ⟨htake, hdrop⟩ := takeWhile_congr hawaits.insideGroup_eq
      rw [hdrop] at hstack
      obtain ⟨past', out', run', runOut', hawaits', hrun', hpast, hout⟩ :=
        hawaits.close hrun hk hstack
      have := ih hawaits' hrun' htail
      rw [hpast, hout, ← htake] at this
      simpa using this

/-- **What the converter computes**: the order that the loose grammar gives, and
    nothing for tokens outside of it. -/
theorem reorder_eq_ok_iff {ts out : List Token} :
    reorder [] ts = .ok out ↔ Reorders (.chain 0) ts out ∧ Operands ts := by
  constructor
  · intro h
    have := Awaits.start.reorders .nothing h
    exact ⟨by simpa using this, operands_of_reorder h⟩
  · rintro ⟨hts, hops⟩
    obtain ⟨sent, waiting, rfl, hwait, heq⟩ := hts.reorder_append [] [] hops (by simp)
    have hall : waiting.all insideGroup = true := by
      rw [List.all_eq_true]
      exact fun t ht => insideGroup_of_operator (hwait t ht).kind
    rw [List.append_nil, List.append_nil] at heq
    rw [heq, reorder, drain, if_pos hall]
    rfl

end Reckoner.ReversePolish

/-! ### Formulas -/

namespace Reckoner

open ReversePolish

@[simp] theorem Operator.token_precedence (op : Operator) :
    (Leaf.operator op).token.precedence = op.precedence := by
  simp [Leaf.token, Token.precedence, Token.isOperator]

/-- The part of the loose grammar that a sort is. -/
def Level.part : Level → Part
  | .sum => .chain Operator.add.precedence
  | .term => .chain Operator.multiply.precedence
  | .factor => .run

theorem Operator.level_part (op : Operator) : op.level.part = .chain op.precedence := by
  cases op <;> rfl

theorem Operator.reorders_tighter {op : Operator} {ts out : List Token}
    (h : Reorders op.level.tighter.part ts out) : Reorders (.chain (op.precedence + 1)) ts out := by
  cases op with
  | add => exact h
  | subtract => exact h
  | multiply => exact .chain _ h
  | divide => exact .chain _ h

/-- A formula leaves in its post-order. -/
theorem Formula.reorders {level : Level} (e : Formula level) :
    ∃ out, Reorders level.part e.tokens out ∧ out.map Token.text = e.listing := by
  induction e with
  | literal l => exact ⟨[l.token], Reorders.nothing.number rfl, rfl⟩
  | group inner ih =>
    obtain ⟨out, hout, htexts⟩ := ih
    exact ⟨out, Reorders.nothing.group rfl (hout.mono (Nat.zero_le _)) rfl, htexts⟩
  | factor f ih =>
    obtain ⟨out, hout, htexts⟩ := ih
    exact ⟨out, .chain _ hout, htexts⟩
  | term t ih =>
    obtain ⟨out, hout, htexts⟩ := ih
    exact ⟨out, hout.mono (by decide), htexts⟩
  | operation op left right ihl ihr =>
    obtain ⟨leftOut, hleft, hleftTexts⟩ := ihl
    obtain ⟨rightOut, hright, hrightTexts⟩ := ihr
    have hright' := op.reorders_tighter hright
    rw [op.level_part, ← op.token_precedence] at hleft
    rw [← op.token_precedence] at hright'
    rw [op.level_part, ← op.token_precedence]
    refine ⟨leftOut ++ rightOut ++ [(Leaf.operator op).token],
      .operation rfl (Nat.le_refl _) hleft hright', ?_⟩
    simp [Formula.listing, hleftTexts, hrightTexts, Leaf.token]

end Reckoner
