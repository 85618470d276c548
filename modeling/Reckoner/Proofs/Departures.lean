/-
  Reckoner/Proofs/Departures.lean
  ===============================
  **Which token leaves before which.**  Nothing that the converter is given gets lost,
  comes out twice or changes places without a reason, whether the tokens are an
  expression or not (`leaves_in_order`):

    * each number and each operator leaves once, and nothing else leaves;
    * numbers leave in the order in which they stand;
    * an operator leaves before a later one of the same group if and only if some
      operator of that group, behind the first and no later than the second, binds
      no tighter than the first.

  Equal tokens may stand at several places, so the tokens carry their places here.
  `Yard.read` is a step of the converter on such tokens: what has left is kept beside
  the stack, and a run is a fold.  Without the places it is the converter
  (`Yard.run_erased`).

  For the order of two operators the run behind the first one is followed.  As long as
  that operator waits, `Above` says what lies on top of it: the parentheses that were
  opened since, and, below the lowest of them, only operators that bind tighter.
-/
import Reckoner.Proofs.Offences

namespace Reckoner.ReversePolish

/-- A token and its place. -/
abbrev Occurrence := Token × Nat

/-- The converter between two tokens: what has left, and what waits on the stack, its
    top first. -/
structure Yard where
  sent : List Occurrence
  waiting : List Occurrence
deriving DecidableEq, Repr

namespace Yard

/-- One step of the converter, which does nothing at a token where it fails. -/
def read (y : Yard) (x : Occurrence) : Yard :=
  match x.1.kind with
  | .number => ⟨y.sent ++ [x], y.waiting⟩
  | .operator =>
    ⟨y.sent ++ y.waiting.takeWhile (leavesFor x.1 ∘ Prod.fst),
      x :: y.waiting.dropWhile (leavesFor x.1 ∘ Prod.fst)⟩
  | .leftParen => ⟨y.sent, x :: y.waiting⟩
  | .rightParen =>
    ⟨y.sent ++ y.waiting.takeWhile (insideGroup ∘ Prod.fst),
      (y.waiting.dropWhile (insideGroup ∘ Prod.fst)).tail⟩
  | .other _ => y

def run (y : Yard) (xs : List Occurrence) : Yard := xs.foldl read y

/-- All that leaves when nothing more is read. -/
def all (y : Yard) : List Occurrence := y.sent ++ y.waiting

end Yard

/-- The tokens with their places in the order in which they leave. -/
def departures (ts : List Token) : List Occurrence :=
  ((⟨[], []⟩ : Yard).run ts.zipIdx).all

/-! ### What makes an operator leave -/

/-- Some operator among tokens binds no tighter than a precedence and stands outside the
    parentheses among them, where `depth` parentheses are open in front of them. -/
def Yields (precedence depth : Nat) (ts : List Token) : Prop :=
  ∃ left op right, ts = left ++ op :: right ∧ op.kind = .operator ∧
    balancedTokens depth left = true ∧ op.precedence ≤ precedence

theorem not_yields_nil (precedence depth : Nat) : ¬ Yields precedence depth [] := by
  rintro ⟨left, op, right, hsplit, -⟩
  cases left <;> cases hsplit

theorem yields_cons {precedence depth : Nat} {t : Token} {ts : List Token}
    (hopened : t.kind = .rightParen → depth ≠ 0) :
    Yields precedence depth (t :: ts) ↔
      (depth = 0 ∧ t.kind = .operator ∧ t.precedence ≤ precedence) ∨
        Yields precedence (depthStep depth t) ts := by
  constructor
  · rintro ⟨left, op, right, hsplit, hop, hleft, hle⟩
    cases left with
    | nil =>
      cases hsplit
      exact Or.inl ⟨by simpa [balancedTokens] using hleft, hop, hle⟩
    | cons first left =>
      cases hsplit
      rw [balancedTokens_cons_of_opened hopened] at hleft
      exact Or.inr ⟨left, op, right, rfl, hop, hleft, hle⟩
  · rintro (⟨rfl, hop, hle⟩ | ⟨left, op, right, rfl, hop, hleft, hle⟩)
    · exact ⟨[], t, ts, rfl, hop, rfl, hle⟩
    · rw [← balancedTokens_cons_of_opened hopened] at hleft
      exact ⟨t :: left, op, right, rfl, hop, hleft, hle⟩

/-- An operator changes nothing about the parentheses in front of it. -/
theorem balancedTokens_append_operator {op : Token} (hop : op.kind = .operator)
    {ts : List Token} :
    ∀ {depth : Nat}, balancedTokens depth ts = true →
      balancedTokens depth (ts ++ [op]) = true := by
  induction ts with
  | nil =>
    intro depth h
    simpa [balancedTokens, hop] using h
  | cons t ts ih =>
    intro depth h
    have hopened := opened_of_balancedTokens h
    rw [balancedTokens_cons_of_opened hopened] at h
    rw [List.cons_append, balancedTokens_cons_of_opened hopened]
    exact ih h

/-! ### One step after the other -/

namespace Yard

@[simp] theorem run_nil (y : Yard) : y.run [] = y := rfl

@[simp] theorem run_cons (y : Yard) (x : Occurrence) (xs : List Occurrence) :
    y.run (x :: xs) = (y.read x).run xs := rfl

theorem run_append (y : Yard) (xs ys : List Occurrence) :
    y.run (xs ++ ys) = (y.run xs).run ys := List.foldl_append

theorem read_number {x : Occurrence} (hk : x.1.kind = .number) (y : Yard) :
    y.read x = ⟨y.sent ++ [x], y.waiting⟩ := by
  rw [read, hk]

theorem read_operator {x : Occurrence} (hk : x.1.kind = .operator) (y : Yard) :
    y.read x = ⟨y.sent ++ y.waiting.takeWhile (leavesFor x.1 ∘ Prod.fst),
      x :: y.waiting.dropWhile (leavesFor x.1 ∘ Prod.fst)⟩ := by
  rw [read, hk]

theorem read_leftParen {x : Occurrence} (hk : x.1.kind = .leftParen) (y : Yard) :
    y.read x = ⟨y.sent, x :: y.waiting⟩ := by
  rw [read, hk]

theorem read_rightParen {x : Occurrence} (hk : x.1.kind = .rightParen) (y : Yard) :
    y.read x = ⟨y.sent ++ y.waiting.takeWhile (insideGroup ∘ Prod.fst),
      (y.waiting.dropWhile (insideGroup ∘ Prod.fst)).tail⟩ := by
  rw [read, hk]

theorem read_other {x : Occurrence} {name : String} (hk : x.1.kind = .other name) (y : Yard) :
    y.read x = y := by
  rw [read, hk]

/-! ### The converter without the places -/

theorem read_erased {y : Yard} {x : Occurrence} {sent after : List Token}
    (h : Shunts x.1 (y.waiting.map Prod.fst) sent after) :
    (y.read x).sent.map Prod.fst = y.sent.map Prod.fst ++ sent ∧
      (y.read x).waiting.map Prod.fst = after := by
  cases h with
  | number hk _ => simp [read_number hk]
  | operator hk =>
    rw [read_operator hk, ← leavesFor_eq_binds, List.takeWhile_map, List.dropWhile_map]
    simp
  | opening hk => simp [read_leftParen hk]
  | closing hk hstack =>
    rw [List.dropWhile_map] at hstack
    rw [read_rightParen hk, List.takeWhile_map]
    simp [List.map_tail, hstack]

/-- **The converter is the run without the places.** -/
theorem run_erased {xs : List Occurrence} :
    ∀ {y : Yard} {out : List Token}, reorder (y.waiting.map Prod.fst) (xs.map Prod.fst) = .ok out →
      (y.run xs).all.map Prod.fst = y.sent.map Prod.fst ++ out := by
  induction xs with
  | nil =>
    intro y out h
    rw [List.map_nil, reorder, drain] at h
    split at h
    · cases h
      simp [all]
    · cases h
  | cons x xs ih =>
    intro y out h
    obtain ⟨sent, after, tail, hstep, htail, rfl⟩ := Shunts.of_reorder h
    obtain ⟨hsent, hafter⟩ := read_erased hstep
    rw [← hafter] at htail
    rw [run_cons, ih htail, hsent, List.append_assoc]

/-! ### Nothing is lost -/

theorem ordered_eq_false {t : Token} (hn : t.kind ≠ .number) (ho : t.kind ≠ .operator) :
    ordered t = false := by
  simp [ordered, Token.isNumber, Token.isOperator, hn, ho]

/-- A parenthesis is all that is dropped. -/
theorem filter_tail_dropWhile {p : Token → Bool} (hp : ∀ t, t.kind = .leftParen → p t = false)
    (waiting : List Occurrence) :
    (waiting.dropWhile (insideGroup ∘ Prod.fst)).tail.filter (p ∘ Prod.fst) =
      (waiting.dropWhile (insideGroup ∘ Prod.fst)).filter (p ∘ Prod.fst) := by
  cases hstack : waiting.dropWhile (insideGroup ∘ Prod.fst) with
  | nil => rfl
  | cons opening outside =>
    have hopening := List.head?_dropWhile_not (insideGroup ∘ Prod.fst) waiting
    rw [hstack] at hopening
    have hopen : opening.1.kind = .leftParen := by simpa [insideGroup] using hopening
    simp [hp opening.1 hopen]

/-- **A step loses and doubles nothing**: behind it the yard holds what it held, and
    the token, parentheses aside. -/
theorem read_perm (y : Yard) (x : Occurrence) :
    ((y.read x).all.filter (ordered ∘ Prod.fst)).Perm
      ((y.all ++ [x]).filter (ordered ∘ Prod.fst)) := by
  cases hk : x.1.kind with
  | number =>
    rw [read_number hk]
    refine List.Perm.filter _ ?_
    simp only [all, List.append_assoc]
    exact List.perm_append_comm.append_left y.sent
  | operator =>
    rw [read_operator hk]
    refine List.Perm.filter _ ?_
    simp only [all, List.append_assoc]
    refine List.Perm.append_left y.sent (List.perm_middle.trans ?_)
    rw [List.takeWhile_append_dropWhile]
    exact (List.perm_append_singleton x y.waiting).symm
  | leftParen =>
    have hx : ordered x.1 = false := ordered_eq_false (by simp [hk]) (by simp [hk])
    simp [read_leftParen hk, all, hx]
  | rightParen =>
    have hx : ordered x.1 = false := ordered_eq_false (by simp [hk]) (by simp [hk])
    have hdropped : ∀ t : Token, t.kind = .leftParen → ordered t = false :=
      fun t ht => ordered_eq_false (by simp [ht]) (by simp [ht])
    rw [read_rightParen hk, all, List.append_assoc, List.filter_append, List.filter_append,
      filter_tail_dropWhile hdropped, ← List.filter_append, List.takeWhile_append_dropWhile]
    simp [all, hx]
  | other name =>
    have hx : ordered x.1 = false := ordered_eq_false (by simp [hk]) (by simp [hk])
    simp [read_other hk, hx]

theorem run_perm (xs : List Occurrence) :
    ∀ y : Yard, ((y.run xs).all.filter (ordered ∘ Prod.fst)).Perm
      ((y.all ++ xs).filter (ordered ∘ Prod.fst)) := by
  induction xs with
  | nil =>
    intro y
    rw [run_nil, List.append_nil]
  | cons x xs ih =>
    intro y
    have hstep := (y.read_perm x).append_right (xs.filter (ordered ∘ Prod.fst))
    rw [← List.filter_append, ← List.filter_append, List.append_assoc] at hstep
    exact (ih (y.read x)).trans hstep

/-! ### Numbers do not wait -/

/-- **A step lets a number out at once**, and nothing else that it lets out is one. -/
theorem read_numbers {y : Yard} (h : ∀ top ∈ y.waiting, top.1.isNumber = false)
    (x : Occurrence) :
    (∀ top ∈ (y.read x).waiting, top.1.isNumber = false) ∧
      (y.read x).sent.filter (Token.isNumber ∘ Prod.fst) =
        (y.sent ++ [x]).filter (Token.isNumber ∘ Prod.fst) := by
  have hleaving : ∀ p : Occurrence → Bool,
      (y.waiting.takeWhile p).filter (Token.isNumber ∘ Prod.fst) = [] := by
    intro p
    refine List.filter_eq_nil_iff.mpr fun top htop => ?_
    simp [h top ((List.takeWhile_sublist p).mem htop)]
  have hstaying : ∀ p : Occurrence → Bool, ∀ top ∈ y.waiting.dropWhile p,
      top.1.isNumber = false :=
    fun p top htop => h top ((List.dropWhile_sublist p).mem htop)
  by_cases hk : x.1.kind = .number
  · rw [read_number hk]
    exact ⟨h, rfl⟩
  · have hx : x.1.isNumber = false := by simpa [Token.isNumber] using hk
    have hsame : (y.sent ++ [x]).filter (Token.isNumber ∘ Prod.fst) =
        y.sent.filter (Token.isNumber ∘ Prod.fst) := by simp [hx]
    rw [hsame]
    cases hother : x.1.kind with
    | number => exact absurd hother hk
    | operator =>
      rw [read_operator hother, List.filter_append, hleaving, List.append_nil]
      exact ⟨List.forall_mem_cons.mpr ⟨hx, hstaying _⟩, rfl⟩
    | leftParen =>
      rw [read_leftParen hother]
      exact ⟨List.forall_mem_cons.mpr ⟨hx, h⟩, rfl⟩
    | rightParen =>
      rw [read_rightParen hother, List.filter_append, hleaving, List.append_nil]
      exact ⟨fun top htop => hstaying _ top (List.mem_of_mem_tail htop), rfl⟩
    | other name =>
      rw [read_other hother]
      exact ⟨h, rfl⟩

theorem run_numbers {xs : List Occurrence} :
    ∀ {y : Yard}, (∀ top ∈ y.waiting, top.1.isNumber = false) →
      (y.run xs).all.filter (Token.isNumber ∘ Prod.fst) =
        (y.sent ++ xs).filter (Token.isNumber ∘ Prod.fst) := by
  induction xs with
  | nil =>
    intro y h
    have hnone : y.waiting.filter (Token.isNumber ∘ Prod.fst) = [] := by
      simpa [List.filter_eq_nil_iff] using h
    rw [run_nil, all, List.filter_append, hnone, List.append_nil, List.append_nil]
  | cons x xs ih =>
    intro y h
    obtain ⟨hwaiting, hsent⟩ := read_numbers h x
    rw [run_cons, ih hwaiting, List.filter_append, hsent, ← List.filter_append,
      List.append_assoc, List.singleton_append]

/-! ### What has left stays in front -/

/-- **A step adds to what has left**, at the end, and keeps the order of the operators
    that waited. -/
theorem read_sent (y : Yard) (x : Occurrence) :
    ∃ gone, (y.read x).sent = y.sent ++ gone ∧
      (y.waiting.filter (Token.isOperator ∘ Prod.fst)).Sublist
        ((gone ++ (y.read x).waiting).filter (Token.isOperator ∘ Prod.fst)) := by
  cases hk : x.1.kind with
  | number =>
    rw [read_number hk]
    exact ⟨[x], rfl, (List.sublist_append_right [x] y.waiting).filter _⟩
  | operator =>
    rw [read_operator hk]
    refine ⟨_, rfl, List.Sublist.filter _ ?_⟩
    nth_rewrite 1 [← List.takeWhile_append_dropWhile (p := leavesFor x.1 ∘ Prod.fst)
      (l := y.waiting)]
    exact (List.sublist_cons_self x _).append_left _
  | leftParen =>
    rw [read_leftParen hk]
    exact ⟨[], (List.append_nil _).symm, (List.sublist_cons_self x y.waiting).filter _⟩
  | rightParen =>
    have hdropped : ∀ t : Token, t.kind = .leftParen → t.isOperator = false := by
      intro t ht
      simp [Token.isOperator, ht]
    rw [read_rightParen hk]
    refine ⟨_, rfl, ?_⟩
    rw [List.filter_append, filter_tail_dropWhile hdropped, ← List.filter_append,
      List.takeWhile_append_dropWhile]
  | other name =>
    rw [read_other hk]
    exact ⟨[], (List.append_nil _).symm, List.Sublist.refl _⟩

theorem run_sent (xs : List Occurrence) :
    ∀ y : Yard, ∃ rest, (y.run xs).all = y.sent ++ rest ∧
      (y.waiting.filter (Token.isOperator ∘ Prod.fst)).Sublist rest := by
  induction xs with
  | nil => exact fun y => ⟨y.waiting, rfl, List.filter_sublist⟩
  | cons x xs ih =>
    intro y
    obtain ⟨gone, hsent, hstep⟩ := y.read_sent x
    obtain ⟨rest, hall, hrest⟩ := ih (y.read x)
    refine ⟨gone ++ rest, ?_, ?_⟩
    · rw [run_cons, hall, hsent, List.append_assoc]
    · rw [List.filter_append] at hstep
      exact hstep.trans (List.filter_sublist.append hrest)

/-! ### What lies above an operator -/

/-- What may lie on the stack above an operator of a precedence: so many parentheses, and
    below the lowest of them only operators that bind tighter. -/
inductive Above (precedence : Nat) : Nat → List Occurrence → Prop where
  | nothing : Above precedence 0 []
  | operator {depth : Nat} {top : Occurrence} {above : List Occurrence} :
      top.1.kind = .operator → (depth = 0 → precedence < top.1.precedence) →
      Above precedence depth above → Above precedence depth (top :: above)
  | opening {depth : Nat} {top : Occurrence} {above : List Occurrence} :
      top.1.kind = .leftParen → Above precedence depth above →
      Above precedence (depth + 1) (top :: above)

/-- The operator `first` waits, with `depth` parentheses opened since it was read. -/
def Waits (first : Occurrence) (depth : Nat) (y : Yard) : Prop :=
  ∃ above below, y.waiting = above ++ first :: below ∧ Above first.1.precedence depth above

/-- Outside of parentheses all that lies above an operator leaves with it. -/
theorem Above.all_leave {precedence depth : Nat} {above : List Occurrence}
    (h : Above precedence depth above) (hdepth : depth = 0) {t : Token}
    (hle : t.precedence ≤ precedence) :
    ∀ top ∈ above, (leavesFor t ∘ Prod.fst) top = true := by
  induction h with
  | nothing => exact fun top htop => absurd htop List.not_mem_nil
  | operator hk htighter _ ih =>
    have hle' := Nat.le_trans hle (Nat.le_of_lt (htighter hdepth))
    exact List.forall_mem_cons.mpr ⟨binds_eq_true.mpr ⟨hk, hle'⟩, ih hdepth⟩
  | opening => cases hdepth

/-- What an operator lets out does not reach further down than to one that binds less
    tightly or to a parenthesis. -/
theorem Above.dropWhile_leavesFor {depth : Nat} {above : List Occurrence} {first : Occurrence}
    (h : Above first.1.precedence depth above) {t : Token}
    (hlt : depth = 0 → first.1.precedence < t.precedence) (below : List Occurrence) :
    ∃ above', Above first.1.precedence depth above' ∧
      (above ++ first :: below).dropWhile (leavesFor t ∘ Prod.fst) = above' ++ first :: below := by
  induction h with
  | nothing =>
    have hstays : ¬ (leavesFor t ∘ Prod.fst) first = true := by
      simp [leavesFor, hlt rfl]
    exact ⟨[], .nothing, List.dropWhile_cons_of_neg hstays⟩
  | @operator depth top above hk htighter habove ih =>
    by_cases htop : (leavesFor t ∘ Prod.fst) top = true
    · obtain ⟨above', habove', heq⟩ := ih hlt
      refine ⟨above', habove', ?_⟩
      rw [List.cons_append, List.dropWhile_cons_of_pos htop, heq]
    · exact ⟨_, .operator hk htighter habove, List.dropWhile_cons_of_neg htop⟩
  | @opening depth top above hk habove ih =>
    have hstays : ¬ (leavesFor t ∘ Prod.fst) top = true := by
      simp [leavesFor, Token.isOperator, hk]
    exact ⟨_, .opening hk habove, List.dropWhile_cons_of_neg hstays⟩

/-- A closing parenthesis lets out no more than what lies above the lowest open one. -/
theorem Above.dropWhile_insideGroup {precedence depth : Nat} {above : List Occurrence}
    (h : Above precedence depth above) {outer : Nat} (hdepth : depth = outer + 1)
    (below : List Occurrence) :
    ∃ above', Above precedence outer above' ∧
      ((above ++ below).dropWhile (insideGroup ∘ Prod.fst)).tail = above' ++ below := by
  induction h with
  | nothing => cases hdepth
  | @operator depth top above hk _ _ ih =>
    obtain ⟨above', habove', heq⟩ := ih hdepth
    have hleaves : (insideGroup ∘ Prod.fst) top = true := insideGroup_of_operator hk
    refine ⟨above', habove', ?_⟩
    rw [List.cons_append, List.dropWhile_cons_of_pos hleaves, heq]
  | @opening depth top above hk habove _ =>
    cases hdepth
    have hstops : ¬ (insideGroup ∘ Prod.fst) top = true := by simp [insideGroup, hk]
    refine ⟨above, habove, ?_⟩
    rw [List.cons_append, List.dropWhile_cons_of_neg hstops, List.tail_cons]

/-! ### When an operator leaves -/

/-- **What a step does to an operator that waits**: it leaves for one of its group that
    binds no tighter. -/
theorem Waits.read_leaves {first x : Occurrence} {y : Yard} (h : Waits first 0 y)
    (hfirst : first.1.kind = .operator) (hk : x.1.kind = .operator)
    (hle : x.1.precedence ≤ first.1.precedence) : first ∈ (y.read x).sent := by
  obtain ⟨above, below, hwaiting, habove⟩ := h
  have hleaves : (leavesFor x.1 ∘ Prod.fst) first = true := binds_eq_true.mpr ⟨hfirst, hle⟩
  rw [read_operator hk, hwaiting, List.takeWhile_append_of_pos (habove.all_leave rfl hle),
    List.takeWhile_cons_of_pos hleaves]
  simp

/-- **What a step does to an operator that waits**: it goes on waiting where its group is
    not closed and no operator of its group comes that binds no tighter. -/
theorem Waits.read_waits {first x : Occurrence} {depth : Nat} {y : Yard} (h : Waits first depth y)
    (hcloses : x.1.kind = .rightParen → depth ≠ 0)
    (hlt : x.1.kind = .operator → depth = 0 → first.1.precedence < x.1.precedence) :
    Waits first (depthStep depth x.1) (y.read x) := by
  obtain ⟨above, below, hwaiting, habove⟩ := h
  cases hk : x.1.kind with
  | number =>
    rw [read_number hk]
    exact ⟨above, below, hwaiting, by simpa [depthStep, hk] using habove⟩
  | operator =>
    obtain ⟨above', habove', heq⟩ := habove.dropWhile_leavesFor (hlt hk) below
    rw [read_operator hk, hwaiting, heq]
    have hstep : depthStep depth x.1 = depth := by simp [depthStep, hk]
    rw [hstep]
    exact ⟨x :: above', below, rfl, .operator hk (hlt hk) habove'⟩
  | leftParen =>
    rw [read_leftParen hk, hwaiting]
    have hstep : depthStep depth x.1 = depth + 1 := by simp [depthStep, hk]
    rw [hstep]
    exact ⟨x :: above, below, rfl, .opening hk habove⟩
  | rightParen =>
    obtain ⟨outer, rfl⟩ := Nat.exists_eq_succ_of_ne_zero (hcloses hk)
    obtain ⟨above', habove', heq⟩ := habove.dropWhile_insideGroup rfl (first :: below)
    rw [read_rightParen hk, hwaiting, heq]
    have hstep : depthStep (outer + 1) x.1 = outer := by simp [depthStep, hk]
    rw [hstep]
    exact ⟨above', below, rfl, habove'⟩
  | other name =>
    rw [read_other hk]
    exact ⟨above, below, hwaiting, by simpa [depthStep, hk] using habove⟩

/-- What has left does not come back. -/
theorem mem_run_sent {first : Occurrence} {xs : List Occurrence} :
    ∀ {y : Yard}, first ∈ y.sent → first ∈ (y.run xs).sent := by
  induction xs with
  | nil => exact id
  | cons x xs ih =>
    intro y h
    obtain ⟨gone, hsent, -⟩ := y.read_sent x
    refine ih ?_
    rw [hsent]
    exact List.mem_append_left gone h

/-- **Whether an operator still waits behind tokens whose parentheses pair up**: it does
    if and only if none of them makes it leave. -/
theorem Waits.run {first : Occurrence} (hfirst : first.1.kind = .operator)
    {xs : List Occurrence} :
    ∀ {depth : Nat} {y : Yard}, Waits first depth y →
      balancedTokens depth (xs.map Prod.fst) = true →
      (Yields first.1.precedence depth (xs.map Prod.fst) ∧ first ∈ (y.run xs).sent) ∨
        (¬ Yields first.1.precedence depth (xs.map Prod.fst) ∧ Waits first 0 (y.run xs)) := by
  induction xs with
  | nil =>
    intro depth y h hbalanced
    have hdepth : depth = 0 := by simpa [balancedTokens] using hbalanced
    rw [hdepth] at h
    exact Or.inr ⟨not_yields_nil _ _, h⟩
  | cons x xs ih =>
    intro depth y h hbalanced
    have hopened := opened_of_balancedTokens hbalanced
    rw [List.map_cons, balancedTokens_cons_of_opened hopened] at hbalanced
    rw [List.map_cons, yields_cons hopened, run_cons]
    by_cases hleaves : depth = 0 ∧ x.1.kind = .operator ∧
        x.1.precedence ≤ first.1.precedence
    · obtain ⟨rfl, hk, hle⟩ := hleaves
      exact Or.inl ⟨Or.inl ⟨rfl, hk, hle⟩, mem_run_sent (h.read_leaves hfirst hk hle)⟩
    · have hlt : x.1.kind = .operator → depth = 0 → first.1.precedence < x.1.precedence := by
        intro hk hdepth
        by_contra hle
        exact hleaves ⟨hdepth, hk, by omega⟩
      rcases ih (h.read_waits hopened hlt) hbalanced with ⟨hyields, hsent⟩ | ⟨hnone, hwaits⟩
      · exact Or.inl ⟨Or.inr hyields, hsent⟩
      · exact Or.inr ⟨not_or.mpr ⟨hleaves, hnone⟩, hwaits⟩

/-- An operator that waits leaves behind a later one that lies on top. -/
theorem Waits.sublist {first second : Occurrence} {depth : Nat} {y : Yard}
    {others : List Occurrence} (h : Waits first depth y) (htop : y.waiting = second :: others)
    (hne : second ≠ first) (hfirst : first.1.kind = .operator)
    (hsecond : second.1.kind = .operator) :
    [second, first].Sublist (y.waiting.filter (Token.isOperator ∘ Prod.fst)) := by
  obtain ⟨above, below, hwaiting, -⟩ := h
  rw [htop] at hwaiting ⊢
  cases above with
  | nil =>
    cases hwaiting
    exact absurd rfl hne
  | cons top above =>
    cases hwaiting
    have hmem : first ∈ (above ++ first :: below).filter (Token.isOperator ∘ Prod.fst) := by
      simp [List.mem_filter, Token.isOperator, hfirst]
    rw [List.filter_cons_of_pos (by simp [Token.isOperator, hsecond])]
    exact (List.singleton_sublist.mpr hmem).cons_cons second

/-- **Which of two operators of a group leaves first**: the first, if one of those
    behind it, the second included, makes it leave, and else the second. -/
theorem pair_sublist_iff {y : Yard} {first second : Occurrence}
    {between after : List Occurrence}
    (hnodup : ((y.read first).run (between ++ second :: after)).all.Nodup)
    (hne : second ≠ first) (hfirst : first.1.kind = .operator)
    (hsecond : second.1.kind = .operator)
    (hbalanced : balancedTokens 0 ((between ++ [second]).map Prod.fst) = true) :
    [first, second].Sublist ((y.read first).run (between ++ second :: after)).all ↔
      Yields first.1.precedence 0 ((between ++ [second]).map Prod.fst) := by
  have hsplit : between ++ second :: after = (between ++ [second]) ++ after := by simp
  rw [hsplit, run_append] at hnodup ⊢
  have hstart : Waits first 0 (y.read first) := by
    rw [read_operator hfirst]
    exact ⟨[], _, rfl, .nothing⟩
  -- the second operator has just been read and lies on top
  obtain ⟨others, htop⟩ : ∃ others,
      ((y.read first).run (between ++ [second])).waiting = second :: others := by
    rw [run_append, run_cons, run_nil, read_operator hsecond]
    exact ⟨_, rfl⟩
  obtain ⟨rest, hall, hrest⟩ := run_sent after ((y.read first).run (between ++ [second]))
  rw [hall] at hnodup ⊢
  rcases hstart.run hfirst hbalanced with ⟨hyields, hsent⟩ | ⟨hnone, hwaits⟩
  · have hlater : second ∈ rest := by
      refine hrest.mem ?_
      simp [htop, Token.isOperator, hsecond]
    have hpair := (List.singleton_sublist.mpr hsent).append (List.singleton_sublist.mpr hlater)
    exact iff_of_true hpair hyields
  · refine iff_of_false (fun hbefore => ?_) hnone
    have hlater := (hwaits.sublist htop hne hfirst hsecond).trans hrest
    have hsame := (hnodup.perm_iff_eq_of_sublist hbefore
      (hlater.trans (List.sublist_append_right _ rest))).mp (List.Perm.swap _ _ _)
    cases hsame
    exact hne rfl

end Yard

/-! ### The whole list -/

theorem departures_erased {ts out : List Token} (h : reorder [] ts = .ok out) :
    (departures ts).map Prod.fst = out := by
  have herased := @Yard.run_erased ts.zipIdx ⟨[], []⟩ out (by simpa using h)
  simpa [departures] using herased

/-- Where the tokens have an order each number and operator leaves once, and nothing
    else leaves. -/
theorem departures_perm {ts out : List Token} (h : reorder [] ts = .ok out) :
    (departures ts).Perm (ts.zipIdx.filter (ordered ∘ Prod.fst)) := by
  have hall : ∀ x ∈ departures ts, (ordered ∘ Prod.fst) x = true := by
    intro x hx
    have hout : x.1 ∈ out := by
      rw [← departures_erased h]
      exact List.mem_map_of_mem hx
    exact (List.mem_filter.mp ((reorder_eq_ok_iff.mp h).1.perm.mem_iff.mp hout)).2
  rw [← List.filter_eq_self.mpr hall]
  exact Yard.run_perm ts.zipIdx ⟨[], []⟩

theorem departures_numbers (ts : List Token) :
    (departures ts).filter (Token.isNumber ∘ Prod.fst) =
      ts.zipIdx.filter (Token.isNumber ∘ Prod.fst) :=
  @Yard.run_numbers ts.zipIdx ⟨[], []⟩ (by simp)

/-- **Which of two operators of a group leaves first.** -/
theorem departures_operators {before between after out : List Token} {first second : Token}
    (h : reorder [] (before ++ first :: (between ++ second :: after)) = .ok out)
    (hfirst : first.kind = .operator) (hsecond : second.kind = .operator)
    (hbalanced : balancedTokens 0 between = true) :
    [(first, before.length), (second, before.length + 1 + between.length)].Sublist
        (departures (before ++ first :: (between ++ second :: after))) ↔
      Yields first.precedence 0 (between ++ [second]) := by
  have hplaces := (List.nodup_zipIdx_map_snd
    (before ++ first :: (between ++ second :: after))).of_map Prod.snd
  have hnodup := (departures_perm h).nodup_iff.mpr (hplaces.filter _)
  have hsplit : (before ++ first :: (between ++ second :: after)).zipIdx =
      before.zipIdx ++ (first, before.length) ::
        (between.zipIdx (before.length + 1) ++
          (second, before.length + 1 + between.length) ::
            after.zipIdx (before.length + 1 + between.length + 1)) := by
    simp [List.zipIdx_append, List.zipIdx_cons]
  have htokens : (between.zipIdx (before.length + 1) ++
      [(second, before.length + 1 + between.length)]).map Prod.fst = between ++ [second] := by
    simp
  have hne : (second, before.length + 1 + between.length) ≠ (first, before.length) := by
    intro hsame
    have hplace := congrArg Prod.snd hsame
    omega
  rw [departures, hsplit, Yard.run_append, Yard.run_cons] at hnodup ⊢
  rw [Yard.pair_sublist_iff hnodup hne hfirst hsecond, htokens]
  rw [htokens]
  exact balancedTokens_append_operator hsecond hbalanced

/-- **Nothing is lost, doubled or out of order.**  Whatever the tokens, where they have a
    text it is made of their numbers and operators, each with its place once, the numbers
    as they stand.  Two operators belong to one group where the parentheses between them
    pair up; the first leaves before the second if and only if an operator of that group,
    behind the first and no later than the second, binds no tighter than the first. -/
theorem leaves_in_order {ts : List Token} {text : String} (h : textOf ts = .ok text) :
    text = render ((departures ts).map Prod.fst) ∧
    (departures ts).Perm (ts.zipIdx.filter fun x => x.1.isNumber || x.1.isOperator) ∧
    ((departures ts).filter fun x => x.1.isNumber) = (ts.zipIdx.filter fun x => x.1.isNumber) ∧
    ∀ before first between second after,
      ts = before ++ first :: (between ++ second :: after) →
      first.kind = .operator → second.kind = .operator → balancedTokens 0 between = true →
      ([(first, before.length), (second, before.length + 1 + between.length)].Sublist
          (departures ts) ↔
        ∃ left op right, between ++ [second] = left ++ op :: right ∧ op.kind = .operator ∧
          balancedTokens 0 left = true ∧ op.precedence ≤ first.precedence) := by
  obtain ⟨out, hout, rfl⟩ := Outcome.map_eq_ok.mp h
  obtain ⟨hreorder, -⟩ := ofTokens_eq_ok.mp hout
  refine ⟨?_, departures_perm hreorder, departures_numbers ts, ?_⟩
  · rw [departures_erased hreorder]
  · rintro before first between second after rfl hfirst hsecond hbalanced
    exact departures_operators hreorder hfirst hsecond hbalanced

/-- The tokens of `1-(+)*2 3-`, which is no expression. -/
def scattered : List Token :=
  [⟨.number, "1"⟩, ⟨.operator, "-"⟩, ⟨.leftParen, "("⟩, ⟨.operator, "+"⟩, ⟨.rightParen, ")"⟩,
    ⟨.operator, "*"⟩, ⟨.number, "2"⟩, ⟨.number, "3"⟩, ⟨.operator, "-"⟩]

theorem leaves_in_order_scattered :
    textOf scattered = .ok "1 + 2 3 * - -" ∧
      [(⟨.operator, "-"⟩, 1), (⟨.operator, "-"⟩, 8)].Sublist (departures scattered) ∧
      ¬ [(⟨.operator, "-"⟩, 1), (⟨.operator, "*"⟩, 5)].Sublist (departures scattered) := by
  have htext : textOf scattered = .ok "1 + 2 3 * - -" := by decide +kernel
  obtain ⟨-, -, -, horder⟩ := leaves_in_order htext
  refine ⟨htext, ?_, ?_⟩
  · exact (horder [_] _ [_, _, _, _, _, _] _ [] rfl rfl rfl rfl).mpr
      ⟨[_, _, _, _, _, _], _, [], rfl, rfl, rfl, by decide⟩
  · intro hbefore
    have hyields : Yields 1 0 [⟨.leftParen, "("⟩, ⟨.operator, "+"⟩, ⟨.rightParen, ")"⟩,
        ⟨.operator, "*"⟩] :=
      (horder [_] ⟨.operator, "-"⟩ [_, _, _] _ [_, _, _] rfl rfl rfl rfl).mp hbefore
    have htighter : ¬ Token.precedence ⟨.operator, "*"⟩ ≤ 1 := by decide
    simp [yields_cons, depthStep, not_yields_nil, htighter] at hyields

end Reckoner.ReversePolish
