/-
  Reckoner/Proofs/Alphabet.lean
  =============================
  **The alphabet of expressions.**  The first check of a calculation tells apart three
  sorts of texts, and it tells them apart for every text there is (`alphabet_gate`):

    * a text of blanks only is an empty expression, blanks outside ASCII included;
    * any other text is an invalid expression as soon as a character outside the
      alphabet stands anywhere in it, with one exception;
    * all that remains passes.

  The exception is a line end behind everything else.  It passes although it is no
  character of the alphabet, and it makes no difference to anything that comes later:
  no stage takes it for a part of the expression (`calculate_lineEnd`).
-/
import Reckoner.Proofs.Spacing

namespace Reckoner

open Reckoner.Text

variable {text : String} {cs : List Char}

/-! ### Characters -/

/-- The eighteen characters that an expression may be written with. -/
def alphabet : List Char := "0123456789+-*/.() ".toList

theorem mem_alphabet_of_isDigit {c : Char} (h : c.isDigit = true) : c ∈ alphabet := by
  simp only [Char.isDigit, Bool.and_eq_true, decide_eq_true_eq] at h
  have hlow : 48 ≤ c.toNat := h.1
  have hhigh : c.toNat < 58 := Nat.lt_succ_of_le h.2
  have hdigits : ∀ n < 58, 48 ≤ n → Char.ofNat n ∈ alphabet := by decide +kernel
  rw [← Char.ofNat_toNat c]
  exact hdigits c.toNat hhigh hlow

theorem mem_alphabet {c : Char} : c ∈ alphabet ↔ inAlphabet c = true := by
  constructor
  · intro h
    have hall : alphabet.all inAlphabet = true := by decide
    exact List.all_eq_true.mp hall c h
  · intro h
    simp only [inAlphabet, Bool.or_eq_true, beq_iff_eq] at h
    rcases h with (((((((hdigit | rfl) | rfl) | rfl) | rfl) | rfl) | rfl) | rfl) | rfl
    · exact mem_alphabet_of_isDigit hdigit
    all_goals decide

/-- Somewhere stands a character outside the alphabet, and it is not a line end behind
    all others. -/
def HoldsForeign (cs : List Char) : Prop :=
  ∃ before c behind, cs = before ++ c :: behind ∧ c ∉ alphabet ∧ (c = '\n' → behind ≠ [])

theorem mem_withoutLineEnd {before behind : List Char} {c : Char} (h : c = '\n' → behind ≠ []) :
    c ∈ withoutLineEnd (before ++ c :: behind) := by
  rw [withoutLineEnd_append before (List.cons_ne_nil c behind)]
  apply List.mem_append_right
  by_cases hlast : behind = []
  · subst hlast
    have hc : c ≠ '\n' := fun hc => h hc rfl
    rw [withoutLineEnd_eq_self (by simpa using hc)]
    exact List.mem_singleton_self c
  · have hsplit : withoutLineEnd (c :: behind) = [c] ++ withoutLineEnd behind :=
      withoutLineEnd_append [c] hlast
    rw [hsplit]
    exact List.mem_append_left _ (List.mem_singleton_self c)

/-- What is left without the line end at the end is what counts. -/
theorem holdsForeign_iff : HoldsForeign cs ↔ ∃ c ∈ withoutLineEnd cs, c ∉ alphabet := by
  constructor
  · rintro ⟨before, c, behind, rfl, hforeign, hline⟩
    exact ⟨c, mem_withoutLineEnd hline, hforeign⟩
  · rintro ⟨c, hc, hforeign⟩
    by_cases hline : cs.getLast? = some '\n'
    · have hcs : cs.dropLast ++ ['\n'] = cs := List.dropLast_append_getLast? '\n' hline
      rw [withoutLineEnd, if_pos (by simpa using hline)] at hc
      obtain ⟨before, behind, hsplit⟩ := List.append_of_mem hc
      refine ⟨before, c, behind ++ ['\n'], ?_, hforeign, fun _ => by simp⟩
      rw [← hcs, hsplit]
      simp
    · rw [withoutLineEnd_eq_self hline] at hc
      obtain ⟨before, behind, rfl⟩ := List.append_of_mem hc
      refine ⟨before, c, behind, rfl, hforeign, ?_⟩
      rintro rfl rfl
      exact hline (by simp)

/-! ### The check -/

theorem checkAlphabet_of_allBlank (h : allBlank text = true) :
    checkAlphabet text = fail .emptyExpression := by
  rw [checkAlphabet, if_pos h]

theorem checkAlphabet_of_holdsForeign (hshown : allBlank text = false)
    (h : HoldsForeign text.toList) : checkAlphabet text = fail .invalidExpression := by
  obtain ⟨c, hc, hforeign⟩ := holdsForeign_iff.mp h
  have hnot : ¬ (withoutLineEnd text.toList).all inAlphabet = true := by
    intro hall
    exact hforeign (mem_alphabet.mpr (List.all_eq_true.mp hall c hc))
  rw [checkAlphabet, if_neg (by simp [hshown]), if_neg hnot]

/-- **What passes**: a text with something in it that holds no foreign character. -/
theorem checkAlphabet_eq_ok_iff :
    checkAlphabet text = .ok () ↔ allBlank text = false ∧ ¬ HoldsForeign text.toList := by
  rw [checkAlphabet_eq_ok, holdsForeign_iff, List.all_eq_true]
  simp [mem_alphabet]

/-- Nothing after the check is reached where it fails. -/
theorem calculate_of_checkAlphabet {kind : FailureKind} (h : checkAlphabet text = fail kind) :
    calculate text = fail kind := by
  rw [calculate, toReversePolish, h]
  rfl

/-- A text that does not end in a line end is checked to its last character. -/
theorem not_holdsForeign_iff (hline : cs.getLast? ≠ some '\n') :
    ¬ HoldsForeign cs ↔ ∀ c ∈ cs, c ∈ alphabet := by
  rw [holdsForeign_iff, withoutLineEnd_eq_self hline]
  simp

/-! ### A line end at the end -/

theorem Pending.ends_lineEnd : Ends '\n' := by
  unfold Ends
  decide

/-- **A line end behind a text makes no difference** unless another stands in front of
    it. -/
theorem calculate_lineEnd (hline : text.toList.getLast? ≠ some '\n') :
    checkAlphabet (text ++ "\n") = checkAlphabet text ∧
      calculate (text ++ "\n") = calculate text := by
  have htext : (text ++ "\n").toList = text.toList ++ ['\n'] := by simp
  have halphabet : checkAlphabet (text ++ "\n") = checkAlphabet text := by
    have hblank : allBlank (text ++ "\n") = allBlank text := by
      have hline : isBlank '\n' = true := by decide
      simp [allBlank, hline]
    have hfront : withoutLineEnd (text.toList ++ ['\n']) = withoutLineEnd text.toList := by
      rw [withoutLineEnd_append _ (List.cons_ne_nil _ _), withoutLineEnd_eq_self hline]
      exact List.append_nil _
    rw [checkAlphabet, checkAlphabet, hblank, htext, hfront]
  have hparentheses : checkParentheses (text ++ "\n") = checkParentheses text := by
    have hskipped : ∀ depth, balanced depth ['\n'] = balanced depth [] := fun depth =>
      balanced_cons_of_ne (by decide) (by decide) depth []
    have hbalanced := balanced_congr_append hskipped text.toList 0
    rw [List.append_nil] at hbalanced
    rw [checkParentheses, checkParentheses, checkBalance, checkBalance, htext, hbalanced]
  have htokens : tokenize (text ++ "\n") = tokenize text := by
    have hscan : Pending.nothing.scan (text.toList ++ ['\n']) =
        Pending.nothing.scan text.toList := by
      rw [Pending.scan_append Pending.ends_lineEnd]
      exact List.append_nil _
    rw [tokenize, tokenize, htext, hscan]
  refine ⟨halphabet, ?_⟩
  rw [calculate, calculate, toReversePolish_congr halphabet hparentheses htokens]

/-! ### Every text -/

/-- **What the first check makes of a text.**  Blanks only are an empty expression; a
    foreign character anywhere is an invalid one; what holds neither passes.  Among the
    texts that do not end in a line end those pass whose characters are all of the
    alphabet, and such a text has the same result with a line end behind it. -/
theorem alphabet_gate (text : String) :
    (allBlank text = true → calculate text = fail .emptyExpression) ∧
    (allBlank text = false → HoldsForeign text.toList →
      calculate text = fail .invalidExpression) ∧
    (checkAlphabet text = .ok () ↔ allBlank text = false ∧ ¬ HoldsForeign text.toList) ∧
    (checkAlphabet text = .ok () ∧ text.toList.getLast? ≠ some '\n' ↔
      allBlank text = false ∧ ∀ c ∈ text.toList, c ∈ alphabet) ∧
    (text.toList.getLast? ≠ some '\n' →
      checkAlphabet (text ++ "\n") = checkAlphabet text ∧
        calculate (text ++ "\n") = calculate text) := by
  refine ⟨?_, ?_, checkAlphabet_eq_ok_iff, ?_, calculate_lineEnd⟩
  · intro hblank
    exact calculate_of_checkAlphabet (checkAlphabet_of_allBlank hblank)
  · intro hshown hforeign
    exact calculate_of_checkAlphabet (checkAlphabet_of_holdsForeign hshown hforeign)
  · rw [checkAlphabet_eq_ok_iff]
    constructor
    · rintro ⟨⟨hshown, hforeign⟩, hline⟩
      exact ⟨hshown, (not_holdsForeign_iff hline).mp hforeign⟩
    · rintro ⟨hshown, hall⟩
      have hline : text.toList.getLast? ≠ some '\n' := by
        intro hlast
        exact absurd (hall '\n' (List.mem_of_getLast? hlast)) (by decide)
      exact ⟨⟨hshown, (not_holdsForeign_iff hline).mpr hall⟩, hline⟩

/-- A line end in the middle is foreign, and so is a digit of another script. -/
theorem alphabet_gate_foreign :
    calculate "2+3\n*4" = fail .invalidExpression ∧ calculate "٣" = fail .invalidExpression ∧
      calculate "\u00a0\n" = fail .emptyExpression := by
  refine ⟨(alphabet_gate "2+3\n*4").2.1 (by decide) ?_, (alphabet_gate "٣").2.1 (by decide) ?_,
    (alphabet_gate "\u00a0\n").1 (by decide)⟩
  · exact ⟨"2+3".toList, '\n', "*4".toList, by decide, by decide, by decide⟩
  · exact ⟨[], '٣', [], by decide, by decide, by decide⟩

/-- A line end is not of the alphabet, and yet it does not keep a text from having a
    value. -/
theorem line_end_passes :
    '\n' ∈ "2+3\n".toList ∧ '\n' ∉ alphabet ∧ allBlank "2+3\n" = false ∧
      checkAlphabet "2+3\n" = .ok () ∧ calculate "2+3\n" = .ok 5.0 := by
  decide +kernel

end Reckoner
