/-
  Reckoner/Proofs/Fusion.lean
  ===========================
  **Which signs are fused.**  Whether a minus is the sign of a number can be told by
  looking at its place: the token in front of it must expect an operand, or there is
  none, and a number must stand behind it (`signAt`).  The pass over signs never looks
  back.  It carries one bit along and steps over the two tokens of a fused pair at once.

  Two signs never stand at neighbouring places, for behind a sign stands a number.  So
  the pass steps over no sign, and its bit is what the token in front would tell; both
  are kept by the induction along its own cases (`fuseFrom_cases`).  What it leaves is
  the row of tokens without the signs, where the number behind each sign has taken it
  on (`signsFused`), and it fails if and only if one of these numbers is not finite.
-/
import Reckoner.Proofs.Stages

namespace Reckoner

open Reckoner.Number

/-! ### Places -/

/-- Whether an operand is expected at a place: at the start, behind an operator and
    behind `(`. -/
def expectsAt (ts : List Token) : Nat → Bool
  | 0 => true
  | i + 1 => ts[i]?.any Token.expectsOperand

/-- Whether the token at a place is the sign of the number behind it. -/
def signAt (ts : List Token) (i : Nat) : Bool :=
  ts[i]?.any Token.isMinus && expectsAt ts i && ts[i + 1]?.any Token.isNumber

/-- Whether the token at a place has its sign in front of it. -/
def signedAt (ts : List Token) : Nat → Bool
  | 0 => false
  | i + 1 => signAt ts i

/-- What is left of the token at a place: nothing of a sign, and the number behind it
    takes the sign on. -/
def leftAt (ts : List Token) (placed : Token × Nat) : Option Token :=
  if signAt ts placed.2 then none
  else if signedAt ts placed.2 then some placed.1.negated
  else some placed.1

/-- Tokens with every sign and the number behind it in one. -/
def signsFused (ts : List Token) : List Token :=
  ts.zipIdx.filterMap (leftAt ts)

/-- The number behind the sign at a place is no finite double once it has the sign. -/
def RefusedAt (ts : List Token) (i : Nat) : Prop :=
  signAt ts i = true ∧ ∃ n, ts[i + 1]? = some n ∧
    ¬ ∃ x, readFloat? ("-" ++ n.text) = some x ∧ x.isFinite = true

theorem signAt_append (before : List Token) (t : Token) (rest : List Token) :
    signAt (before ++ t :: rest) before.length =
      (before.getLast?.all Token.expectsOperand && t.isMinus && rest.head?.any Token.isNumber) := by
  have hexpects : expectsAt (before ++ t :: rest) before.length =
      before.getLast?.all Token.expectsOperand := by
    rcases before.eq_nil_or_concat' with rfl | ⟨init, last, rfl⟩
    · rfl
    · simp [expectsAt]
  have hnext : (before ++ t :: rest)[before.length + 1]? = rest.head? := by
    cases rest <;> simp
  rw [signAt, hexpects, hnext, Bool.and_comm (Option.any _ _)]
  simp

/-- **Two signs are never neighbours.** -/
theorem signAt_succ {ts : List Token} {i : Nat} (h : signAt ts i = true) :
    signAt ts (i + 1) = false := by
  obtain ⟨-, hnumber⟩ := Bool.and_eq_true_iff.mp h
  obtain ⟨n, hn, hnumber⟩ := (Option.any_eq_true _ _).mp hnumber
  rw [signAt, hn, Option.any_some, Token.isMinus_of_isNumber hnumber]
  rfl

theorem isFiniteNumeral_eq_false_iff {text : String} :
    isFiniteNumeral text = false ↔ ¬ ∃ x, readFloat? text = some x ∧ x.isFinite = true := by
  rw [← Bool.not_eq_true, isFiniteNumeral, Option.any_eq_true]

/-! ### The pass over signs -/

/-- A number is refused at a place or behind it. -/
def RefusedFrom (ts : List Token) (i : Nat) : Prop :=
  ∃ j, i ≤ j ∧ RefusedAt ts j

theorem refusedFrom_of_refusedAt {ts : List Token} {i : Nat} (h : RefusedAt ts i) :
    RefusedFrom ts i :=
  ⟨i, Nat.le_refl i, h⟩

theorem refusedFrom_iff_succ {ts : List Token} {i : Nat} (h : ¬ RefusedAt ts i) :
    RefusedFrom ts i ↔ RefusedFrom ts (i + 1) := by
  constructor
  · rintro ⟨j, hj, hrefused⟩
    obtain rfl | hj := Nat.eq_or_lt_of_le hj
    · exact absurd hrefused h
    · exact ⟨j, hj, hrefused⟩
  · rintro ⟨j, hj, hrefused⟩
    exact ⟨j, by omega, hrefused⟩

theorem not_refusedAt_of_not_signAt {ts : List Token} {i : Nat} (h : signAt ts i = false) :
    ¬ RefusedAt ts i := by
  rintro ⟨hsign, -⟩
  rw [h] at hsign
  cases hsign

theorem not_refusedFrom_length (ts : List Token) : ¬ RefusedFrom ts ts.length := by
  rintro ⟨i, hi, -, n, hn, -⟩
  rw [List.getElem?_eq_none (by omega)] at hn
  cases hn

/-- A place without a sign is left as it is, if its own sign is not in front. -/
theorem leftAt_eq_some {ts : List Token} {t : Token} {i : Nat} (hsign : signAt ts i = false)
    (hsigned : signedAt ts i = false) : leftAt ts (t, i) = some t := by
  rw [leftAt, hsign, hsigned]
  rfl

/-- What is left of a pair is the number with its sign. -/
theorem filterMap_leftAt_pair {ts : List Token} {i : Nat} (h : signAt ts i = true)
    (t next : Token) (rest : List Token) :
    ((t :: next :: rest).zipIdx i).filterMap (leftAt ts) =
      next.negated :: (rest.zipIdx (i + 2)).filterMap (leftAt ts) := by
  have hgone : leftAt ts (t, i) = none := if_pos h
  have htaken : leftAt ts (next, i + 1) = some next.negated := by
    rw [leftAt, signAt_succ h, if_neg (by simp)]
    exact if_pos h
  rw [List.zipIdx_cons, List.filterMap_cons_none hgone, List.zipIdx_cons,
    List.filterMap_cons_some htaken]

/-- **What the pass does from a place on**, where the token there has no sign in front:
    either it leaves what is to be left, or there is a number that it refuses. -/
theorem fuseFrom_cases {expected : Bool} (before rest : List Token)
    (hexpected : before.getLast?.all Token.expectsOperand = expected)
    (hsigned : signedAt (before ++ rest) before.length = false) :
    (fuseFrom expected rest =
        .ok ((rest.zipIdx before.length).filterMap (leftAt (before ++ rest))) ∧
      ¬ RefusedFrom (before ++ rest) before.length) ∨
    (fuseFrom expected rest = fail .invalidNumber ∧
      RefusedFrom (before ++ rest) before.length) := by
  induction expected, rest using fuseFrom.induct generalizing before with
  | case1 expected =>
    rw [List.append_nil]
    exact Or.inl ⟨rfl, not_refusedFrom_length before⟩
  | case2 expected t =>
    have hsign : signAt (before ++ [t]) before.length = false := by
      rw [signAt_append]
      simp
    have hend : ¬ RefusedFrom (before ++ [t]) (before.length + 1) := by
      have := not_refusedFrom_length (before ++ [t])
      rwa [List.length_append] at this
    refine Or.inl ⟨?_, ?_⟩
    · rw [List.zipIdx_singleton, List.filterMap_cons_some (leftAt_eq_some hsign hsigned)]
      rfl
    · rwa [refusedFrom_iff_succ (not_refusedAt_of_not_signAt hsign)]
  | case3 expected t next rest hfused hfinite ih =>
    obtain ⟨hminus, hnumber⟩ := Bool.and_eq_true_iff.mp hfused
    have hsign : signAt (before ++ t :: next :: rest) before.length = true := by
      rw [signAt_append, hexpected, hminus]
      exact hnumber
    have hallowed : ¬ RefusedAt (before ++ t :: next :: rest) before.length := by
      rintro ⟨-, n, hn, hnot⟩
      obtain rfl : next = n := by simpa using hn
      have hinfinite : isFiniteNumeral next.negated.text = false :=
        isFiniteNumeral_eq_false_iff.mpr hnot
      rw [hfinite] at hinfinite
      cases hinfinite
    -- The pass goes on behind the pair, whose number expects no operand and is no sign.
    have hsplit : before ++ t :: next :: rest = (before ++ [t, next]) ++ rest := by simp
    have hlength : (before ++ [t, next]).length = before.length + 2 := by simp
    have hafter := ih (before ++ [t, next])
      (by simp [Token.expectsOperand_of_isNumber hnumber])
      (by rw [← hsplit, hlength]; exact signAt_succ hsign)
    rw [← hsplit, hlength] at hafter
    rw [fuseFrom, if_pos hfused, if_pos hfinite, filterMap_leftAt_pair hsign,
      refusedFrom_iff_succ hallowed,
      refusedFrom_iff_succ (not_refusedAt_of_not_signAt (signAt_succ hsign))]
    rcases hafter with ⟨hok, hnone⟩ | ⟨hfail, hsome⟩
    · exact Or.inl ⟨by rw [hok]; rfl, hnone⟩
    · exact Or.inr ⟨by rw [hfail]; rfl, hsome⟩
  | case4 expected t next rest hfused hinfinite =>
    obtain ⟨hminus, hnumber⟩ := Bool.and_eq_true_iff.mp hfused
    have hsign : signAt (before ++ t :: next :: rest) before.length = true := by
      rw [signAt_append, hexpected, hminus]
      exact hnumber
    have hnot := isFiniteNumeral_eq_false_iff.mp (Bool.eq_false_of_not_eq_true hinfinite)
    rw [fuseFrom, if_pos hfused, if_neg hinfinite]
    exact Or.inr ⟨rfl, refusedFrom_of_refusedAt ⟨hsign, next, by simp, hnot⟩⟩
  | case5 expected t next rest hkept ih =>
    have hsign : signAt (before ++ t :: next :: rest) before.length = false := by
      rw [signAt_append, hexpected]
      simpa using hkept
    have hsplit : before ++ t :: next :: rest = (before ++ [t]) ++ next :: rest := by simp
    have hlength : (before ++ [t]).length = before.length + 1 := by simp
    have hafter := ih (before ++ [t]) (by simp) (by rw [← hsplit, hlength]; exact hsign)
    rw [← hsplit, hlength] at hafter
    rw [fuseFrom, if_neg hkept, List.zipIdx_cons,
      List.filterMap_cons_some (leftAt_eq_some hsign hsigned),
      refusedFrom_iff_succ (not_refusedAt_of_not_signAt hsign)]
    rcases hafter with ⟨hok, hnone⟩ | ⟨hfail, hsome⟩
    · exact Or.inl ⟨by rw [hok]; rfl, hnone⟩
    · exact Or.inr ⟨by rw [hfail]; rfl, hsome⟩

/-! ### What is left -/

theorem signedAt_of_signAt {ts : List Token} {i : Nat} (h : signAt ts i = true) :
    signedAt ts i = false := by
  cases i with
  | zero => rfl
  | succ i =>
    cases hsign : signAt ts i with
    | false => exact hsign
    | true =>
      rw [signAt_succ hsign] at h
      cases h

theorem signedAt_length (ts : List Token) : signedAt ts ts.length = false := by
  cases hlength : ts.length with
  | zero => rfl
  | succ i =>
    rw [signedAt, signAt, List.getElem?_eq_none (Nat.le_of_eq hlength)]
    simp

theorem text_of_signAt {before rest : List Token} {t : Token}
    (h : signAt (before ++ t :: rest) before.length = true) : t.text = "-" := by
  rw [signAt_append] at h
  simp only [Token.isMinus, Bool.and_eq_true, beq_iff_eq] at h
  exact h.1.2.2

/-- A number that has taken its sign on writes the sign first, so no character is lost.
    Where the sign of the first token is in front of the row, it comes on top. -/
theorem flatMap_text_leftAt (before rest : List Token) :
    ((rest.zipIdx before.length).filterMap (leftAt (before ++ rest))).flatMap (·.text.toList) =
      (if signedAt (before ++ rest) before.length then ['-'] else []) ++
        rest.flatMap (·.text.toList) := by
  induction rest generalizing before with
  | nil =>
    rw [List.append_nil, signedAt_length]
    rfl
  | cons t rest ih =>
    have hsplit : before ++ t :: rest = (before ++ [t]) ++ rest := by simp
    have hlength : (before ++ [t]).length = before.length + 1 := by simp
    have hafter := ih (before ++ [t])
    rw [← hsplit, hlength, signedAt] at hafter
    rw [List.zipIdx_cons, List.flatMap_cons]
    cases hsign : signAt (before ++ t :: rest) before.length with
    | true =>
      have hgone : leftAt (before ++ t :: rest) (t, before.length) = none := if_pos hsign
      rw [List.filterMap_cons_none hgone, hafter, hsign, signedAt_of_signAt hsign,
        text_of_signAt hsign]
      rfl
    | false =>
      have hleft : leftAt (before ++ t :: rest) (t, before.length) =
          some (if signedAt (before ++ t :: rest) before.length then t.negated else t) := by
        rw [leftAt, hsign, if_neg (by simp)]
        cases signedAt (before ++ t :: rest) before.length <;> rfl
      rw [List.filterMap_cons_some hleft, List.flatMap_cons, hafter, hsign]
      cases signedAt (before ++ t :: rest) before.length with
      | true => simp [Token.negated]
      | false => simp

/-- The signs of a row of tokens. -/
def signCount (ts : List Token) : Nat := (List.range ts.length).countP (signAt ts)

/-- **Every sign shortens the row by one.** -/
theorem length_signsFused (ts : List Token) :
    (signsFused ts).length + signCount ts = ts.length := by
  have hkept : ∀ placed : Token × Nat, (leftAt ts placed).isSome = !signAt ts placed.2 := by
    intro placed
    rw [leftAt]
    cases signAt ts placed.2 with
    | true => rfl
    | false => cases signedAt ts placed.2 <;> rfl
  have hplaces : ts.zipIdx.map Prod.snd = List.range ts.length := by
    rw [List.zipIdx_map_snd, List.range_eq_range']
  have hsigns : signCount ts = ts.zipIdx.countP fun placed => signAt ts placed.2 := by
    rw [signCount, ← hplaces, List.countP_map]
    rfl
  have hlength := ts.zipIdx.length_eq_countP_add_countP fun placed => signAt ts placed.2
  rw [List.length_zipIdx] at hlength
  rw [signsFused, List.length_filterMap_eq_countP, hsigns, Nat.add_comm, hlength]
  simp only [hkept, Bool.not_eq_true, Bool.decide_eq_false]

/-- **The pass over signs is exact and loses nothing.**  It fails if and only if the
    number behind some sign is no finite double with that sign, and then the number is
    called invalid.  Else it leaves the tokens with every sign and the number behind it
    in one and all others as they are.  The texts of what is left spell the same
    characters, and there is one token less for every sign. -/
theorem fuses_exactly_signs (ts : List Token) :
    (fuseSigns ts = fail .invalidNumber ↔ ∃ i, RefusedAt ts i) ∧
    (fuseSigns ts = .ok (signsFused ts) ↔ ¬ ∃ i, RefusedAt ts i) ∧
    String.join ((signsFused ts).map Token.text) = String.join (ts.map Token.text) ∧
    (signsFused ts).length + signCount ts = ts.length ∧
    ∀ i, ¬ (signAt ts i = true ∧ signAt ts (i + 1) = true) := by
  have hfrom : RefusedFrom ts 0 ↔ ∃ i, RefusedAt ts i := by
    simp [RefusedFrom]
  have hcases : (fuseSigns ts = .ok (signsFused ts) ∧ ¬ ∃ i, RefusedAt ts i) ∨
      (fuseSigns ts = fail .invalidNumber ∧ ∃ i, RefusedAt ts i) := by
    rw [← hfrom]
    exact fuseFrom_cases [] ts rfl rfl
  refine ⟨?_, ?_, ?_, length_signsFused ts, ?_⟩
  · rcases hcases with ⟨hok, hnone⟩ | ⟨hfail, hsome⟩
    · rw [hok]
      exact ⟨nofun, fun hsome => absurd hsome hnone⟩
    · exact ⟨fun _ => hsome, fun _ => hfail⟩
  · rcases hcases with ⟨hok, hnone⟩ | ⟨hfail, hsome⟩
    · exact ⟨fun _ => hnone, fun _ => hok⟩
    · rw [hfail]
      exact ⟨nofun, fun hnone => absurd hsome hnone⟩
  · rw [← String.toList_inj, String.toList_join, String.toList_join, List.flatMap_map,
      List.flatMap_map]
    exact flatMap_text_leftAt [] ts
  · rintro i ⟨hsign, hnext⟩
    rw [signAt_succ hsign] at hnext
    cases hnext

/-- Of two signs in a row only the second one stands before a number. -/
example : fuseSigns [⟨.operator, "-"⟩, ⟨.operator, "-"⟩, ⟨.number, "3"⟩] =
    .ok [⟨.operator, "-"⟩, ⟨.number, "-3"⟩] := by decide +kernel

end Reckoner
