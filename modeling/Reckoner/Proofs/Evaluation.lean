/-
  Reckoner/Proofs/Evaluation.lean
  ===============================
  **What the evaluator reads.**  A row of items in reverse Polish order has at
  most one reading as an expression tree, and the evaluator finds it:

    * the items of a tree leave exactly its value on the stack (`Tree.run_append`),
      and its first failure is the failure of the run;
    * whatever the items, a run that succeeds has read them as one tree for each
      number on its stack (`run_eq_ok`).

  So a row has a value if and only if it is the post-order of a tree that has it
  (`evaluateItems_eq_ok`).
-/
import Mathlib.Data.List.Forall2
import Reckoner.ReversePolish
import Reckoner.ReversePolish.Evaluation
import Reckoner.Proofs.Literal
import Reckoner.Proofs.Outcome
import Reckoner.Proofs.Signs

namespace Reckoner.ReversePolish

open Reckoner.Number Reckoner.Text

/-! ### From text to items -/

/-- A text that reads as one item. -/
def OneWord (text : String) : Prop :=
  text.toList ≠ [] ∧ ∀ c ∈ text.toList, isBlank c = false

theorem oneWord_of_spelled {t : Token} (h : t.Spelled) : OneWord t.text := by
  unfold OneWord
  cases h with
  | number l =>
    have htext : l.text.toList = l.chars := by simp [Literal.text]
    rw [htext]
    exact ⟨l.chars_ne_nil, l.not_isBlank⟩
  | operator op =>
    have hsymbol : op.symbol.toList ≠ [] ∧ op.symbol.toList.all (!isBlank ·) = true := by
      cases op <;> decide
    exact ⟨hsymbol.1, by simpa using hsymbol.2⟩
  | opening => simp; decide
  | closing => simp; decide

theorem splitOnP_intercalate {first : List Char} (hfirst : ∀ c ∈ first, isBlank c = false)
    {items : List (List Char)} (hitems : ∀ item ∈ items, ∀ c ∈ item, isBlank c = false) :
    ([' '].intercalate (first :: items)).splitOnP isBlank = first :: items := by
  induction items generalizing first with
  | nil =>
    rw [List.intercalate_singleton]
    exact List.splitOnP_eq_singleton hfirst
  | cons second items ih =>
    have hspace : isBlank ' ' = true := by decide
    rw [List.intercalate_cons_cons, List.append_assoc, List.singleton_append,
      List.splitOnP_append_cons_of_forall_mem hfirst ' ' hspace,
      ih (hitems second (by simp)) fun item hitem => hitems item (by simp [hitem])]

/-- **Joining by spaces loses nothing.** -/
theorem words_intercalate {items : List String} (h : ∀ item ∈ items, OneWord item) :
    words (" ".intercalate items) = items := by
  cases items with
  | nil => rfl
  | cons first items =>
    have hrest : ∀ item ∈ items.map String.toList, ∀ c ∈ item, isBlank c = false := by
      intro item hitem
      obtain ⟨text, htext, rfl⟩ := List.mem_map.mp hitem
      exact (h text (by simp [htext])).2
    have hsplit : (" ".intercalate (first :: items)).toList.splitOnP isBlank =
        (first :: items).map String.toList := by
      rw [String.toList_intercalate, List.map_cons]
      exact splitOnP_intercalate (h first (by simp)).2 hrest
    have hkept : ((first :: items).map String.toList).filter (! ·.isEmpty) =
        (first :: items).map String.toList := by
      rw [List.filter_eq_self]
      intro item hitem
      obtain ⟨text, htext, rfl⟩ := List.mem_map.mp hitem
      simp [(h text htext).1]
    rw [words, hsplit, hkept, List.map_map]
    simp [Function.comp_def]

theorem words_render {ts : List Token} (h : ∀ t ∈ ts, t.Spelled) :
    words (render ts) = ts.map Token.text := by
  refine words_intercalate fun item hitem => ?_
  obtain ⟨t, ht, rfl⟩ := List.mem_map.mp hitem
  exact oneWord_of_spelled (h t ht)

/-! ### Trees of items -/

/-- An expression tree over the items of a reverse Polish text. -/
inductive Tree where
  | operand (text : String) (numeral : (readFloat? text).isSome = true)
  | node (operator : Operator) (left right : Tree)

namespace Tree

/-- The post-order of a tree. -/
def items : Tree → List String
  | operand text _ => [text]
  | node operator left right => left.items ++ right.items ++ [operator.symbol]

/-- The value of a tree, or the first failure on the way to it. -/
def value : Tree → Outcome Float
  | operand text _ => checkOperand text
  | node operator left right => do
    let a ← left.value
    let b ← right.value
    operator.outcome a b

end Tree

theorem Tree.items_ne_nil (tree : Tree) : tree.items ≠ [] := by
  cases tree <;> simp [items]

theorem step_operand {text : String} (h : (readFloat? text).isSome = true) (stack : List Float) :
    step stack text = (· :: stack) <$> checkOperand text := by
  rw [step, ofText?_eq_none_of_readFloat? h]
  simp only [h, if_true]

theorem step_operator (op : Operator) (a b : Float) (below : List Float) :
    step (b :: a :: below) op.symbol = (· :: below) <$> op.outcome a b := by
  rw [step, Operator.ofText?_symbol, ← Operator.combine_eq_outcome]
  rfl

theorem step_operator_short {stack : List Float} (h : stack.length < 2) (op : Operator) :
    step stack op.symbol = fail .missingOperand := by
  rw [step, Operator.ofText?_symbol]
  cases stack with
  | nil => rfl
  | cons b rest =>
    cases rest with
    | nil => rfl
    | cons a below =>
      simp only [List.length_cons] at h
      omega

theorem run_append (stack : List Float) (xs ys : List String) :
    run stack (xs ++ ys) = run stack xs >>= (run · ys) :=
  List.foldlM_append

theorem run_cons (stack : List Float) (item : String) (items : List String) :
    run stack (item :: items) = step stack item >>= (run · items) :=
  List.foldlM_cons

/-- **A tree leaves its value**, on top of whatever was there. -/
theorem Tree.run_append (tree : Tree) :
    ∀ (stack : List Float) (rest : List String),
      run stack (tree.items ++ rest) = tree.value >>= fun x => run (x :: stack) rest := by
  induction tree with
  | operand text numeral =>
    intro stack rest
    rw [items, List.singleton_append, run_cons, step_operand numeral, Outcome.map_bind, value]
  | node op left right ihl ihr =>
    intro stack rest
    have hsplit : (node op left right).items ++ rest =
        left.items ++ (right.items ++ (op.symbol :: rest)) := by
      simp [items]
    rw [hsplit, ihl, value]
    cases left.value with
    | error failure => rfl
    | ok a =>
      simp only [Outcome.ok_bind]
      rw [ihr]
      cases right.value with
      | error failure => rfl
      | ok b =>
        simp only [Outcome.ok_bind]
        rw [run_cons, step_operator, Outcome.map_bind]

/-- The items of a tree have its value. -/
theorem evaluateItems_items (tree : Tree) : evaluateItems tree.items = tree.value := by
  have hrun := tree.run_append [] []
  rw [List.append_nil] at hrun
  rw [evaluateItems, hrun]
  cases tree.value <;> rfl

/-- The value of a tree has passed the last check on the way to it. -/
theorem Tree.inSafeRange_value {tree : Tree} {x : Float} (h : tree.value = .ok x) :
    inSafeRange x = true := by
  cases tree with
  | operand text numeral => exact (checkOperand_eq_ok.mp h).2
  | node op left right =>
    obtain ⟨a, -, h⟩ := Outcome.bind_eq_ok.mp h
    obtain ⟨b, -, h⟩ := Outcome.bind_eq_ok.mp h
    exact Operator.inSafeRange_of_outcome h

/-! ### Runs that succeed -/

/-- The items of trees one behind the other, the last tree first. -/
def spell (forest : List Tree) : List String := forest.reverse.flatMap Tree.items

theorem spell_cons (tree : Tree) (forest : List Tree) :
    spell (tree :: forest) = spell forest ++ tree.items := by
  simp [spell]

/-- Trees whose values are the numbers of a stack. -/
def Reads : List Tree → List Float → Prop := List.Forall₂ fun tree x => tree.value = .ok x

/-- One more item makes a leaf, or joins the two last trees. -/
theorem step_eq_ok {stack stack' : List Float} {item : String} (h : step stack item = .ok stack')
    {forest : List Tree} (hforest : Reads forest stack) :
    ∃ forest', Reads forest' stack' ∧ spell forest' = spell forest ++ [item] := by
  rw [step] at h
  cases hop : Operator.ofText? item with
  | some op =>
    simp only [hop] at h
    have hitem : op.symbol = item := by
      have := List.find?_some hop
      simpa using this
    cases hforest with
    | nil => cases h
    | @cons right b forest below hb hbelow =>
      cases hbelow with
      | nil => cases h
      | @cons left a forest below ha hbelow =>
        rw [reduce, Operator.combine_eq_outcome] at h
        obtain ⟨x, hx, rfl⟩ := Outcome.map_eq_ok.mp h
        have hvalue : (Tree.node op left right).value = .ok x := by
          rw [Tree.value, ha, hb]
          exact hx
        refine ⟨.node op left right :: forest, .cons hvalue hbelow, ?_⟩
        simp only [spell_cons, Tree.items, hitem, List.append_assoc]
  | none =>
    simp only [hop] at h
    split at h
    · next hnumeral =>
      obtain ⟨x, hx, rfl⟩ := Outcome.map_eq_ok.mp h
      exact ⟨.operand item hnumeral :: forest, .cons hx hforest, spell_cons _ _⟩
    · cases h

/-- **What a run that succeeds has read**: one tree for each number it leaves. -/
theorem run_eq_ok {items : List String} : ∀ {stack stack' : List Float} {forest : List Tree},
    Reads forest stack → run stack items = .ok stack' →
      ∃ forest', Reads forest' stack' ∧ spell forest' = spell forest ++ items := by
  induction items with
  | nil =>
    intro stack stack' forest hforest h
    cases h
    exact ⟨forest, hforest, by simp⟩
  | cons item items ih =>
    intro stack stack' forest hforest h
    rw [run_cons] at h
    obtain ⟨next, hnext, h⟩ := Outcome.bind_eq_ok.mp h
    obtain ⟨joined, hjoined, hspell⟩ := step_eq_ok hnext hforest
    obtain ⟨forest', hforest', hspell'⟩ := ih hjoined h
    exact ⟨forest', hforest', by rw [hspell', hspell, List.append_assoc, List.singleton_append]⟩

/-- **Which rows of items have a value.** -/
theorem evaluateItems_eq_ok {items : List String} {x : Float} :
    evaluateItems items = .ok x ↔ ∃ tree : Tree, tree.items = items ∧ tree.value = .ok x := by
  constructor
  · intro h
    rw [evaluateItems] at h
    obtain ⟨stack, hstack, h⟩ := Outcome.bind_eq_ok.mp h
    obtain ⟨forest, hforest, hspell⟩ := run_eq_ok .nil hstack
    split at h
    · next y =>
      cases h
      obtain ⟨tree, htree, rfl⟩ : ∃ tree : Tree, tree.value = .ok x ∧ forest = [tree] := by
        cases hforest with
        | cons htree hnil => cases hnil; exact ⟨_, htree, rfl⟩
      exact ⟨tree, by simpa [spell] using hspell, htree⟩
    · cases h
  · rintro ⟨tree, rfl, hvalue⟩
    rw [evaluateItems_items, hvalue]

end Reckoner.ReversePolish
