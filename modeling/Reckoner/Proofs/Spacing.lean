/-
  Reckoner/Proofs/Spacing.lean
  ============================
  **A space makes no difference**, wherever it is put, as long as it does not part
  what would be read as one number.  This holds of every text, well formed or not:
  the result is the same to the message of a failure, and so is the reverse Polish
  text (`calculate_space`).

  No stage but the lexer looks at more than one character at a time, and a space is a
  blank of the alphabet that is no parenthesis.  To the lexer it is the end of the
  pending number, so what remains is that no number is pending across the place where
  it is put: either what follows ends the number as well, or what stands in front has
  ended it already.

  A text that ends in a line end is left out, for a line end that a space follows is
  no longer the last character.
-/
import Reckoner.Proofs.Groups

namespace Reckoner

open Reckoner.Number Reckoner.Text

/-- A character that a number may be made of. -/
def isNumeric (c : Char) : Bool := c.isDigit || c == '.'

theorem ends_of_not_isNumeric {c : Char} (h : isNumeric c = false) : Pending.Ends c := by
  simpa [isNumeric, Pending.Ends] using h

/-- Two texts that no number reaches across: not both the end of the one and the
    beginning of the other are numeric. -/
def Separate (u v : List Char) : Prop :=
  u.getLast?.any isNumeric = false ∨ v.head?.any isNumeric = false

/-! ### The checks -/

theorem allBlank_space {text spaced : String} {u v : List Char} (htext : text.toList = u ++ v)
    (hspaced : spaced.toList = u ++ ' ' :: v) : allBlank spaced = allBlank text := by
  have hblank : isBlank ' ' = true := by decide
  simp [allBlank, htext, hspaced, hblank]

theorem all_inAlphabet_space {u : List Char} (hline : u.getLast? ≠ some '\n') (v : List Char) :
    (withoutLineEnd (u ++ ' ' :: v)).all inAlphabet = (withoutLineEnd (u ++ v)).all inAlphabet := by
  have hspace : inAlphabet ' ' = true := by decide
  cases v with
  | nil =>
    have hlast : (u ++ [' ']).getLast? ≠ some '\n' := by simp
    rw [withoutLineEnd_eq_self hlast, List.append_nil, withoutLineEnd_eq_self hline]
    simp [hspace]
  | cons c cs =>
    have hsplit : u ++ ' ' :: c :: cs = (u ++ [' ']) ++ c :: cs := by simp
    rw [hsplit, withoutLineEnd_append _ (List.cons_ne_nil c cs),
      withoutLineEnd_append _ (List.cons_ne_nil c cs)]
    simp [hspace]

theorem balanced_space (depth : Nat) (u v : List Char) :
    balanced depth (u ++ ' ' :: v) = balanced depth (u ++ v) :=
  balanced_congr_append (fun depth => balanced_cons_of_ne (by decide) (by decide) depth v) u depth

/-! ### The lexer -/

namespace Pending

theorem ends_space : Ends ' ' := by
  unfold Ends
  decide

theorem scan_space_cons (cs : List Char) : nothing.scan (' ' :: cs) = nothing.scan cs :=
  scan_cons_ends ends_space cs

/-- **A space parts nothing** where no number reaches across it. -/
theorem scan_space {u v : List Char} (h : Separate u v) :
    nothing.scan (u ++ ' ' :: v) = nothing.scan (u ++ v) := by
  rcases h with hlast | hhead
  -- The last character in front has ended the pending number.
  · rcases u.eq_nil_or_concat' with rfl | ⟨init, last, rfl⟩
    · exact scan_space_cons v
    · have hends : Ends last := ends_of_not_isNumeric (by simpa using hlast)
      simp only [List.append_assoc, List.singleton_append]
      rw [scan_append hends, scan_append hends, scan_cons_ends hends, scan_cons_ends hends,
        scan_space_cons]
  -- The first character behind ends it, and so does the space.
  · rw [scan_append ends_space, scan_space_cons]
    cases v with
    | nil => rw [List.append_nil]; exact List.append_nil _
    | cons c cs =>
      have hends : Ends c := ends_of_not_isNumeric (by simpa using hhead)
      rw [scan_append hends]

end Pending

/-! ### Texts -/

/-- What comes after the lexer sees a text by its tokens only. -/
theorem toReversePolish_congr {text text' : String}
    (halphabet : checkAlphabet text = checkAlphabet text')
    (hparentheses : checkParentheses text = checkParentheses text')
    (htokens : tokenize text = tokenize text') :
    toReversePolish text = toReversePolish text' := by
  rw [toReversePolish, toReversePolish, halphabet, hparentheses, htokens]

/-- **A space makes no difference** between two texts that no number reaches across,
    of which the first does not end in a line end. -/
theorem calculate_space {u v : String} (hline : u.toList.getLast? ≠ some '\n')
    (hseparate : Separate u.toList v.toList) :
    calculate (u ++ " " ++ v) = calculate (u ++ v) ∧
      toReversePolish (u ++ " " ++ v) = toReversePolish (u ++ v) := by
  have htext : (u ++ v).toList = u.toList ++ v.toList := by simp
  have hspaced : (u ++ " " ++ v).toList = u.toList ++ ' ' :: v.toList := by simp
  have halphabet : checkAlphabet (u ++ " " ++ v) = checkAlphabet (u ++ v) := by
    rw [checkAlphabet, checkAlphabet, allBlank_space htext hspaced, htext, hspaced,
      all_inAlphabet_space hline]
  have hparentheses : checkParentheses (u ++ " " ++ v) = checkParentheses (u ++ v) := by
    rw [checkParentheses, checkParentheses, checkBalance, checkBalance, htext, hspaced,
      balanced_space]
  have htokens : tokenize (u ++ " " ++ v) = tokenize (u ++ v) := by
    rw [tokenize, tokenize, htext, hspaced, Pending.scan_space hseparate]
  have hpolish := toReversePolish_congr halphabet hparentheses htokens
  refine ⟨?_, hpolish⟩
  rw [calculate, calculate, hpolish]

/-- A space behind a point that belongs to no number and before a sign. -/
theorem calculate_space_loose_point :
    calculate ("2*(3." ++ " " ++ "-1)") = calculate ("2*(3." ++ "-1)") ∧
      toReversePolish ("2*(3." ++ " " ++ "-1)") = toReversePolish ("2*(3." ++ "-1)") :=
  calculate_space (by decide) (Or.inr (by decide))

end Reckoner
