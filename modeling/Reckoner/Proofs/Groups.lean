/-
  Reckoner/Proofs/Groups.lean
  ===========================
  **A group counts by its value.**  What stands between two parentheses takes part
  in the rest of an expression by its value and by nothing else: not by its
  precedences, nor by the signs in it, nor by how it was written.  So a group may be
  exchanged for another of the same value, in any surroundings, also where these
  make no sense (`calculate_group`).

  Each stage has its own reason:

    * both checks look at the characters of a group apart from those around it
      (`checkAlphabet_grouped`, `balanced_append`);
    * the lexer starts afresh at a parenthesis (`scan_grouped`), and so does the pass
      over signs (`fuseFrom_grouped`);
    * what stands in front of an open parenthesis is put in order without regard to
      what follows (`reorder_append_cases`), and nothing below the parenthesis leaves
      the stack before it is closed (`reorder_group`);
    * a tree of items leaves its value on top of any stack (`Tree.run_append`).

  A line end is the one character that the alphabet lets pass at the end of a text
  and nowhere else, so a text that ends in one is no group of the same value.
-/
import Reckoner.Proofs.Offences
import Reckoner.Proofs.Rejection

namespace Reckoner

open Reckoner.Number Reckoner.Text ReversePolish

/-! ### Characters -/

/-- The characters of a group and of what stands around it. -/
def grouped (u s v : List Char) : List Char := u ++ '(' :: (s ++ ')' :: v)

theorem toList_grouped (u s v : String) :
    (u ++ "(" ++ s ++ ")" ++ v).toList = grouped u.toList s.toList v.toList := by
  simp [grouped]

theorem withoutLineEnd_append (front : List Char) {back : List Char} (h : back ≠ []) :
    withoutLineEnd (front ++ back) = front ++ withoutLineEnd back := by
  simp only [withoutLineEnd, List.getLast?_append_of_ne_nil front h,
    List.dropLast_append_of_ne_nil h]
  split <;> rfl

theorem withoutLineEnd_eq_self {cs : List Char} (h : cs.getLast? ≠ some '\n') :
    withoutLineEnd cs = cs := by
  rw [withoutLineEnd, if_neg (by simpa using h)]

theorem checkAlphabet_grouped_eq {text : String} {u s v : List Char}
    (htext : text.toList = grouped u s v) :
    checkAlphabet text =
      if u.all inAlphabet && s.all inAlphabet && (withoutLineEnd (')' :: v)).all inAlphabet
      then .ok () else fail .invalidExpression := by
  have hshown : allBlank text = false := by
    have hopening : isBlank '(' = false := by decide
    rw [allBlank, htext, List.all_eq_false]
    exact ⟨'(', by simp [grouped], by simp [hopening]⟩
  have hall : (withoutLineEnd text.toList).all inAlphabet =
      (u.all inAlphabet && s.all inAlphabet &&
        (withoutLineEnd (')' :: v)).all inAlphabet) := by
    have hopening : inAlphabet '(' = true := by decide
    have hsplit : grouped u s v = (u ++ '(' :: s) ++ ')' :: v := by simp [grouped]
    rw [htext, hsplit, withoutLineEnd_append _ (List.cons_ne_nil ')' v)]
    simp [hopening, Bool.and_assoc]
  rw [checkAlphabet, hshown, hall]
  rfl

theorem checkAlphabet_grouped {text : String} {u s v : List Char}
    (htext : text.toList = grouped u s v) (hs : ∀ c ∈ s, inAlphabet c = true) :
    checkAlphabet text =
      if u.all inAlphabet && (withoutLineEnd (')' :: v)).all inAlphabet then .ok ()
      else fail .invalidExpression := by
  rw [checkAlphabet_grouped_eq htext, List.all_eq_true.mpr hs, Bool.and_true]

/-- A text whose parentheses pair up may be passed over. -/
theorem balanced_append {s : List Char} (rest : List Char) :
    ∀ {inner : Nat} (outer : Nat), balanced inner s = true →
      balanced (inner + outer) (s ++ rest) = balanced outer rest := by
  induction s with
  | nil =>
    intro inner outer h
    have hzero : inner = 0 := by simpa [balanced] using h
    rw [hzero, Nat.zero_add, List.nil_append]
  | cons c s ih =>
    intro inner outer h
    by_cases hopen : c = '('
    · subst hopen
      have hrest := ih outer (h : balanced (inner + 1) s = true)
      rw [Nat.add_right_comm] at hrest
      exact hrest
    · by_cases hclose : c = ')'
      · subst hclose
        cases inner with
        | zero => cases h
        | succ inner =>
          rw [Nat.add_right_comm]
          exact ih outer h
      · rw [balanced_cons_of_ne hopen hclose] at h
        rw [List.cons_append, balanced_cons_of_ne hopen hclose]
        exact ih outer h

theorem balanced_congr_append {xs ys : List Char}
    (h : ∀ depth, balanced depth xs = balanced depth ys) (u : List Char) (depth : Nat) :
    balanced depth (u ++ xs) = balanced depth (u ++ ys) := by
  induction u generalizing depth with
  | nil => exact h depth
  | cons c u ih => simp only [List.cons_append, balanced, ih]

theorem balanced_group {s : List Char} (hs : balanced 0 s = true) (v : List Char) (depth : Nat) :
    balanced depth ('(' :: (s ++ ')' :: v)) = balanced depth v := by
  have hinner := balanced_append (')' :: v) (depth + 1) hs
  rw [Nat.zero_add] at hinner
  exact hinner

/-! ### Tokens -/

theorem Pending.scan_append {c : Char} (hc : Ends c) (ys : List Char) (pending : Pending)
    (xs : List Char) :
    pending.scan (xs ++ c :: ys) = pending.scan xs ++ nothing.scan (c :: ys) := by
  induction xs generalizing pending with
  | nil => exact scan_ends hc pending ys
  | cons x xs ih =>
    rw [List.cons_append, scan, ih, ← List.append_assoc]
    rfl

theorem Pending.scan_grouped (u s v : List Char) :
    nothing.scan (grouped u s v) =
      nothing.scan u ++ Leaf.opening.token ::
        (nothing.scan s ++ Leaf.closing.token :: nothing.scan v) := by
  have hopening : Ends '(' := by unfold Ends; decide
  have hclosing : Ends ')' := by unfold Ends; decide
  rw [grouped, scan_append hopening]
  show _ ++ Leaf.opening.token :: nothing.scan _ = _
  rw [scan_append hclosing]
  rfl

/-- At a token that is no part of a signed number the pass over signs starts
    afresh. -/
theorem fuseFrom_append {t : Token} (hnumber : t.isNumber = false) (hminus : t.isMinus = false)
    (expected : Bool) (ts rest : List Token) :
    fuseFrom expected (ts ++ t :: rest) =
      fuseFrom expected ts >>= fun front =>
        (front ++ t :: ·) <$> fuseFrom t.expectsOperand rest := by
  have hkeep : ∀ expected, fuseFrom expected (t :: rest) =
      (t :: ·) <$> fuseFrom t.expectsOperand rest :=
    fun expected => fuseFrom_keep (by simp [hminus]) rest
  induction expected, ts using fuseFrom.induct with
  | case1 expected => exact hkeep expected
  | case2 expected a =>
    have hunsigned : (expected && a.isMinus && t.isNumber) = false := by
      rw [hnumber, Bool.and_false]
    have hsingle : fuseFrom expected [a] = .ok [a] := rfl
    rw [hsingle, List.singleton_append, fuseFrom, hunsigned, if_neg (by simp), hkeep]
    cases fuseFrom t.expectsOperand rest <;> rfl
  | case3 expected a next ts hsign hfinite ih =>
    rw [List.cons_append, List.cons_append, fuseFrom, if_pos hsign, if_pos hfinite, ih, fuseFrom,
      if_pos hsign, if_pos hfinite]
    cases fuseFrom false ts with
    | error failure => rfl
    | ok front =>
      simp only [Outcome.ok_bind, Outcome.map_ok]
      cases fuseFrom t.expectsOperand rest <;> rfl
  | case4 expected a next ts hsign hfinite =>
    rw [List.cons_append, List.cons_append, fuseFrom, if_pos hsign, if_neg hfinite, fuseFrom,
      if_pos hsign, if_neg hfinite]
    rfl
  | case5 expected a next ts hsign ih =>
    rw [List.cons_append, List.cons_append, fuseFrom, if_neg hsign, ← List.cons_append, ih,
      fuseFrom, if_neg hsign]
    cases fuseFrom a.expectsOperand (next :: ts) with
    | error failure => rfl
    | ok front =>
      simp only [Outcome.ok_bind, Outcome.map_ok]
      cases fuseFrom t.expectsOperand rest <;> rfl

/-- In front of a group, inside it and behind it signs are fused apart. -/
theorem fuseFrom_grouped (before ts behind : List Token) :
    fuseFrom true (before ++ Leaf.opening.token :: (ts ++ Leaf.closing.token :: behind)) =
      fuseFrom true before >>= fun front =>
      fuseFrom true ts >>= fun m =>
        (fun back => front ++ Leaf.opening.token :: (m ++ Leaf.closing.token :: back)) <$>
          fuseFrom false behind := by
  have hopening : Leaf.opening.token.expectsOperand = true := rfl
  have hclosing : Leaf.closing.token.expectsOperand = false := rfl
  rw [fuseFrom_append rfl rfl, hopening, fuseFrom_append rfl rfl, hclosing]
  cases fuseFrom true before with
  | error failure => rfl
  | ok front =>
    cases fuseFrom true ts with
    | error failure => rfl
    | ok m => cases fuseFrom false behind <;> rfl

/-! ### Order -/

namespace ReversePolish

/-- **A group leaves in its own order**, whatever waits below it. -/
theorem reorder_group {ts out : List Token} (h : Reorders (.chain 0) ts out)
    (hoperands : Operands ts) (stack rest : List Token) :
    reorder stack (Leaf.opening.token :: (ts ++ Leaf.closing.token :: rest)) =
      (out ++ ·) <$> reorder stack rest := by
  have hgroup : Reorders .run (Leaf.opening.token :: (ts ++ [Leaf.closing.token])) out :=
    Reorders.nothing.group rfl h rfl
  have hops : Operands (Leaf.opening.token :: (ts ++ [Leaf.closing.token])) := by
    intro t ht hk
    rcases List.mem_cons.mp ht with rfl | ht
    · cases hk
    · rcases List.mem_append.mp ht with ht | ht
      · exact hoperands t ht hk
      · cases List.mem_singleton.mp ht
        cases hk
  obtain ⟨sent, waiting, rfl, hwait, heq⟩ := hgroup.reorder_append stack rest hops (fun _ _ h => h)
  obtain rfl := eq_nil_of_run_waits hwait
  rw [List.append_nil, ← List.nil_append stack, ← heq]
  simp

/-! ### Value -/

/-- The number that stands alone on a stack. -/
def only : List Float → Outcome Float
  | [x] => .ok x
  | _ => fail .invalidExpression

theorem evaluateItems_eq (items : List String) : evaluateItems items = run [] items >>= only := rfl

/-- Of a tree among other items only the value is seen. -/
theorem evaluateItems_tree {tree : Tree} {x : Float} (h : tree.value = .ok x)
    (before behind : List String) :
    evaluateItems (before ++ (tree.items ++ behind)) =
      run [] before >>= fun stack => run (x :: stack) behind >>= only := by
  rw [evaluateItems_eq, run_append]
  cases run [] before with
  | error failure => rfl
  | ok stack =>
    simp only [Outcome.ok_bind]
    rw [tree.run_append, h]
    rfl

/-- **What becomes of a group with a value**: `sent` has left for what stands in
    front of it, and `after` is what waits there. -/
theorem result_group {m : List Token} {x : Float} (h : HasValue m x)
    {front back sent after : List Token}
    (hspelled : ∀ t ∈ front ++ Leaf.opening.token :: (m ++ Leaf.closing.token :: back), t.Spelled)
    (hfront : ∀ rest, reorder [] (front ++ rest) = (sent ++ ·) <$> reorder after rest) :
    textOf (front ++ Leaf.opening.token :: (m ++ Leaf.closing.token :: back)) >>= evaluate =
      reorder after back >>= fun tail =>
        run [] (sent.map Token.text) >>= fun stack =>
          run (x :: stack) (tail.map Token.text) >>= only := by
  obtain ⟨hoperands, out, tree, hreorders, hitems, hvalue⟩ := h
  have horder : reorder [] (front ++ Leaf.opening.token :: (m ++ Leaf.closing.token :: back)) =
      (sent ++ ·) <$> ((out ++ ·) <$> reorder after back) := by
    rw [hfront, reorder_group hreorders hoperands]
  cases htail : reorder after back with
  | error failure =>
    rw [textOf, ofTokens, horder, htail]
    rfl
  | ok tail =>
    rw [htail, Outcome.map_ok, Outcome.map_ok] at horder
    have hne : sent ++ (out ++ tail) ≠ [] := by
      have hout : out ≠ [] := by
        rintro rfl
        exact tree.items_ne_nil hitems
      simp [hout]
    have hmem := (reorder_eq_ok_iff.mp horder).1
    rw [textOf, ofTokens_eq_ok.mpr ⟨horder, hne⟩, Outcome.map_ok, Outcome.ok_bind,
      evaluate_render fun t ht => hspelled t (hmem.mem ht), List.map_append, List.map_append,
      ← hitems, evaluateItems_tree hvalue]
    rfl

/-- Groups of one value may be exchanged among tokens. -/
theorem result_group_congr {m m' : List Token} {x : Float} (h : HasValue m x)
    (h' : HasValue m' x) (hm : ∀ t ∈ m, t.Spelled) (hm' : ∀ t ∈ m', t.Spelled)
    {front back : List Token} (hfront : ∀ t ∈ front, t.Spelled) (hback : ∀ t ∈ back, t.Spelled) :
    textOf (front ++ Leaf.opening.token :: (m ++ Leaf.closing.token :: back)) >>= evaluate =
      textOf (front ++ Leaf.opening.token :: (m' ++ Leaf.closing.token :: back)) >>= evaluate := by
  have hwhole : ∀ {inner : List Token}, (∀ t ∈ inner, t.Spelled) →
      ∀ t ∈ front ++ Leaf.opening.token :: (inner ++ Leaf.closing.token :: back), t.Spelled := by
    intro inner hinner t ht
    simp only [List.mem_append, List.mem_cons] at ht
    rcases ht with ht | rfl | ht | rfl | ht
    · exact hfront t ht
    · exact .opening
    · exact hinner t ht
    · exact .closing
    · exact hback t ht
  rcases reorder_append_cases front [] with ⟨sent, after, hsent⟩ | ⟨failure, hfails⟩
  · rw [result_group h (hwhole hm) hsent, result_group h' (hwhole hm') hsent]
  · rw [textOf, textOf, ofTokens, ofTokens, hfails, hfails]

end ReversePolish

/-! ### Texts -/

/-- What a text with a value is to an expression that it is a group of. -/
structure Worth (s : List Char) (x : Float) : Prop where
  inAlphabet : ∀ c ∈ s, inAlphabet c = true
  balanced : balanced 0 s = true
  tokens : ∃ m, fuseFrom true (Pending.nothing.scan s) = .ok m ∧ HasValue m x

theorem worth_of_calculate {s : String} {x : Float} (hline : '\n' ∉ s.toList)
    (h : calculate s = .ok x) : Worth s.toList x := by
  obtain ⟨halphabet, hparentheses, tokens, m, htokens, hfused⟩ := passed_of_calculate h
  have hvalue := (calculate_eq_ok halphabet hparentheses htokens hfused).mp h
  refine ⟨?_, checkParentheses_eq_ok.mp hparentheses, m, ?_, hvalue⟩
  · have hall := (checkAlphabet_eq_ok.mp halphabet).2
    rw [withoutLineEnd_eq_self fun hlast => hline (List.mem_of_getLast? hlast)] at hall
    exact List.all_eq_true.mp hall
  · rw [scan_of_tokenize htokens]
    exact hfused

/-- The reverse Polish text of an expression with a group in it: the tokens in front of
    the group, in it and behind it are read apart and meet in the converter only. -/
theorem toReversePolish_grouped {text : String} {u s v : List Char}
    (htext : text.toList = grouped u s v) :
    toReversePolish text =
      checkAlphabet text >>= fun _ =>
      checkBalance (grouped u s v) >>= fun _ =>
      fuseFrom true (Pending.nothing.scan u) >>= fun front =>
      fuseFrom true (Pending.nothing.scan s) >>= fun m =>
      fuseFrom false (Pending.nothing.scan v) >>= fun back =>
      textOf (front ++ Leaf.opening.token :: (m ++ Leaf.closing.token :: back)) := by
  have htokens : tokenize text = .ok (Pending.nothing.scan (grouped u s v)) := by
    rw [tokenize, htext, Pending.scan_grouped]
    split
    · next hnil => simp at hnil
    · rfl
  rw [toReversePolish, checkParentheses, htext, htokens, Outcome.ok_bind, fuseSigns,
    Pending.scan_grouped, fuseFrom_grouped]
  simp only [bind_assoc, Outcome.map_bind]

/-- The result of an expression with a group in it: only the tokens of the group enter,
    and they enter last. -/
theorem calculate_grouped {text : String} {u s v : List Char} {m : List Token}
    (htext : text.toList = grouped u s v) (halphabet : ∀ c ∈ s, inAlphabet c = true)
    (hbalanced : balanced 0 s = true) (hm : fuseFrom true (Pending.nothing.scan s) = .ok m) :
    calculate text =
      (if u.all inAlphabet && (withoutLineEnd (')' :: v)).all inAlphabet then .ok ()
        else fail .invalidExpression) >>= fun _ =>
      checkBalance (u ++ v) >>= fun _ =>
      fuseFrom true (Pending.nothing.scan u) >>= fun front =>
      fuseFrom false (Pending.nothing.scan v) >>= fun back =>
      textOf (front ++ Leaf.opening.token :: (m ++ Leaf.closing.token :: back)) >>= evaluate := by
  have hparentheses : checkBalance (grouped u s v) = checkBalance (u ++ v) := by
    rw [checkBalance, grouped, balanced_congr_append (balanced_group hbalanced v) u 0]
    rfl
  rw [calculate, toReversePolish_grouped htext, checkAlphabet_grouped htext halphabet,
    hparentheses]
  simp only [bind_assoc, hm, Outcome.ok_bind]

/-- **A group may be exchanged for another of the same value**, whatever stands around
    it: the result, be it a value or a failure with its message, is the same. -/
theorem calculate_group {s t : String} {x y : Float} (hs : '\n' ∉ s.toList)
    (ht : '\n' ∉ t.toList) (hx : calculate s = .ok x) (hy : calculate t = .ok y)
    (hbits : x.toBits = y.toBits) (u v : String) :
    calculate (u ++ "(" ++ s ++ ")" ++ v) = calculate (u ++ "(" ++ t ++ ")" ++ v) := by
  obtain rfl := eq_of_toBits_eq hbits
  obtain ⟨hs, hsbalanced, m, hm, hmx⟩ := worth_of_calculate hs hx
  obtain ⟨ht, htbalanced, m', hm', hmx'⟩ := worth_of_calculate ht hy
  rw [calculate_grouped (toList_grouped u s v) hs hsbalanced hm,
    calculate_grouped (toList_grouped u t v) ht htbalanced hm']
  congr 1
  funext _
  congr 1
  funext _
  cases hfront : fuseFrom true (Pending.nothing.scan u.toList) with
  | error failure => rfl
  | ok front =>
    cases hback : fuseFrom false (Pending.nothing.scan v.toList) with
    | error failure => rfl
    | ok back =>
      exact result_group_congr hmx hmx' (spelled_of_scan hm) (spelled_of_scan hm')
        (spelled_of_scan hfront) (spelled_of_scan hback)

/-- A sum whose operator is out of its place, against a quotient with a group of its
    own. -/
theorem calculate_group_misplaced :
    calculate ("2-" ++ "(" ++ "1 2 +" ++ ")" ++ "*4") =
      calculate ("2-" ++ "(" ++ "9/(1+2)" ++ ")" ++ "*4") :=
  calculate_group (by decide) (by decide) (by decide +kernel : calculate "1 2 +" = .ok 3)
    (by decide +kernel : calculate "9/(1+2)" = .ok 3) rfl "2-" "*4"

end Reckoner
