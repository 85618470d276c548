/-
  Reckoner/Proofs/Reading.lean
  ============================
  **Reverse Polish text can be read in one way only.**  The evaluator accepts exactly
  the texts that list an expression tree in post-order, with operands in range and a
  value, and gives that value (`evaluates_exactly_listings`).  That it finds a tree
  whenever it succeeds, and the value of the tree whenever there is one, is
  `evaluateItems_eq_ok`.  Here stands why no other tree could have been meant.

  The last item of a listing tells an operand from an operator, since no numeral is
  the sign of an operator.  Behind an operator comes the listing of its right operand,
  read from the end, and then that of its left one.  So of two listings none is a
  proper ending of the other (`Tree.append_items_inj`): the induction is on the tree,
  with any items in front of either listing.
-/
import Reckoner.Proofs.Evaluation

namespace Reckoner.ReversePolish

open Reckoner.Number Reckoner.Text

/-! ### One tree for a listing -/

/-- No sign of an operator reads as a numeral. -/
theorem readFloat?_symbol (op : Operator) : (readFloat? op.symbol).isSome = false := by
  by_contra hnumeral
  have hnone : Operator.ofText? op.symbol = none :=
    ofText?_eq_none_of_readFloat? (Bool.eq_true_of_not_eq_false hnumeral)
  rw [Operator.ofText?_symbol] at hnone
  cases hnone

theorem symbol_injective : Function.Injective Operator.symbol := by
  intro op op' h
  have hsame := congrArg Operator.ofText? h
  simpa using hsame

namespace Tree

theorem append_items_node (xs : List String) (op : Operator) (left right : Tree) :
    xs ++ (node op left right).items = (xs ++ left.items ++ right.items) ++ [op.symbol] := by
  simp [items]

/-- **No listing is a proper ending of another**, so a listing has one tree. -/
theorem append_items_inj {tree other : Tree} {xs ys : List String}
    (h : xs ++ tree.items = ys ++ other.items) : tree = other ∧ xs = ys := by
  induction tree generalizing other xs ys with
  | operand text numeral =>
    cases other with
    | operand text' numeral' =>
      obtain ⟨hfront, hlast⟩ := List.append_inj' h rfl
      cases hlast
      exact ⟨rfl, hfront⟩
    | node op left right =>
      rw [append_items_node] at h
      obtain ⟨-, hlast⟩ := List.append_inj' h rfl
      cases hlast
      rw [readFloat?_symbol] at numeral
      cases numeral
  | node op left right ihl ihr =>
    rw [append_items_node] at h
    cases other with
    | operand text' numeral' =>
      obtain ⟨-, hlast⟩ := List.append_inj' h rfl
      cases hlast
      rw [readFloat?_symbol] at numeral'
      cases numeral'
    | node op' left' right' =>
      rw [append_items_node] at h
      obtain ⟨hoperands, hlast⟩ := List.append_inj' h rfl
      have hop : op = op' := symbol_injective (List.singleton_inj.mp hlast)
      obtain ⟨hright, hrest⟩ := ihr hoperands
      obtain ⟨hleft, hfront⟩ := ihl hrest
      rw [hop, hleft, hright]
      exact ⟨rfl, hfront⟩

theorem items_injective : Function.Injective Tree.items := by
  intro tree other h
  have hsame : [] ++ tree.items = [] ++ other.items := h
  exact (append_items_inj hsame).1

/-! ### Operands in range -/

/-- The texts of the leaves, from left to right. -/
def operands : Tree → List String
  | operand text _ => [text]
  | node _ left right => left.operands ++ right.operands

/-- A tree that has a value has all its operands in range. -/
theorem inRange_of_value {tree : Tree} {x : Float} (h : tree.value = .ok x) :
    ∀ text ∈ tree.operands, ∃ y, readFloat? text = some y ∧ inSafeRange y = true := by
  induction tree generalizing x with
  | operand text numeral =>
    intro leaf hleaf
    rw [List.mem_singleton.mp hleaf]
    exact ⟨x, checkOperand_eq_ok.mp h⟩
  | node op left right ihl ihr =>
    obtain ⟨a, ha, h⟩ := Outcome.bind_eq_ok.mp h
    obtain ⟨b, hb, -⟩ := Outcome.bind_eq_ok.mp h
    intro leaf hleaf
    rcases List.mem_append.mp hleaf with hleaf | hleaf
    · exact ihl ha leaf hleaf
    · exact ihr hb leaf hleaf

end Tree

/-! ### What is accepted -/

/-- Items as the post-order of a tree whose operands are in range and whose checked
    evaluation, the left operand first, gives a number. -/
structure ReadAs (items : List String) (tree : Tree) (x : Float) : Prop where
  listing : tree.items = items
  inRange : ∀ text ∈ tree.operands, ∃ y, readFloat? text = some y ∧ inSafeRange y = true
  value : tree.value = .ok x

theorem evaluate_eq_ok_iff_readAs {text : String} {x : Float} :
    evaluate text = .ok x ↔ ∃ tree, ReadAs (words text) tree x := by
  rw [evaluate, evaluateItems_eq_ok]
  constructor
  · rintro ⟨tree, hlisting, hvalue⟩
    exact ⟨tree, hlisting, tree.inRange_of_value hvalue, hvalue⟩
  · rintro ⟨tree, hread⟩
    exact ⟨tree, hread.listing, hread.value⟩

/-- **The evaluator accepts reverse Polish notation and nothing else.**  A text has a
    value if and only if its items are the post-order of a tree with operands in range
    that has this value.  No other tree has the same post-order, whether it has a value
    or not, so the outcome is that of the one tree there is; a text whose items are read as no
    such tree is refused. -/
theorem evaluates_exactly_listings (text : String) :
    (∀ x, evaluate text = .ok x ↔ ∃ tree, ReadAs (words text) tree x) ∧
    (∀ tree other : Tree, tree.items = words text → other.items = words text →
      tree = other) ∧
    (∀ tree : Tree, tree.items = words text → evaluate text = tree.value) ∧
    ((¬ ∃ tree x, ReadAs (words text) tree x) →
      ∃ failure, evaluate text = .error failure) := by
  refine ⟨fun x => evaluate_eq_ok_iff_readAs, ?_, ?_, ?_⟩
  · intro tree other htree hother
    exact Tree.items_injective (htree.trans hother.symm)
  · intro tree htree
    rw [evaluate, ← htree]
    exact evaluateItems_items tree
  · intro hnone
    cases hresult : evaluate text with
    | error failure => exact ⟨failure, rfl⟩
    | ok x =>
      obtain ⟨tree, hread⟩ := evaluate_eq_ok_iff_readAs.mp hresult
      exact absurd ⟨tree, x, hread⟩ hnone

/-- The tree of `7_0 .5 4e0 - /`, with numerals that no expression has. -/
def seventyByDifference : Tree :=
  .node .divide (.operand "7_0" (by decide +kernel))
    (.node .subtract (.operand ".5" (by decide +kernel)) (.operand "4e0" (by decide +kernel)))

theorem evaluates_exactly_listings_seventyByDifference :
    evaluate "7_0\t.5 4e0  - /" = .ok (-20) ∧
      ∀ other : Tree, other.items = words "7_0\t.5 4e0  - /" → other = seventyByDifference := by
  have hlisting : seventyByDifference.items = words "7_0\t.5 4e0  - /" := by decide +kernel
  have hvalue : seventyByDifference.value = .ok (-20) := by decide +kernel
  obtain ⟨haccepts, hunique, -, -⟩ := evaluates_exactly_listings "7_0\t.5 4e0  - /"
  constructor
  · exact (haccepts (-20)).mpr ⟨_, hlisting, Tree.inRange_of_value hvalue, hvalue⟩
  · intro other hother
    exact hunique other _ hother hlisting

end Reckoner.ReversePolish
