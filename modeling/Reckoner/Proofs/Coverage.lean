/-
  Reckoner/Proofs/Coverage.lean
  =============================
  **What the tokens hold of a text.**  The lexer skips what belongs to no token, so
  its tokens need not hold all that was written.  How much they do hold depends on
  each character and on the one behind it:

    * digits, operators and parentheses always are part of a token;
    * a point is part of one if and only if a digit follows it directly;
    * nothing else ever is.

  The texts of the tokens, one behind the other, are exactly these characters
  (`Pending.flatMap_text_scan`).

  The alphabet lets spaces and points pass, and nothing else that the lexer may skip.
  So what an accepted expression loses beside its spaces are the points that no digit
  follows, and it loses none of them if and only if it has none
  (`tokens_hold_all_iff`).
-/
import Reckoner.Proofs.Stages

namespace Reckoner

open Reckoner.Number Reckoner.Text

/-! ### What some token holds -/

/-- The operators and the parentheses, each of which is a token by itself. -/
def isSymbol (c : Char) : Bool :=
  c == '+' || c == '-' || c == '*' || c == '/' || c == '(' || c == ')'

/-- Whether a character is part of a token, where `next` stands behind it. -/
def inToken (c : Char) (next : Option Char) : Bool :=
  c.isDigit || isSymbol c || (c == '.' && next.any Char.isDigit)

/-- The characters that are part of a token, in order. -/
def held : List Char → List Char
  | [] => []
  | c :: cs => if inToken c cs.head? then c :: held cs else held cs

theorem inToken_of_isDigit {c : Char} (hc : c.isDigit = true) (next : Option Char) :
    inToken c next = true := by
  simp [inToken, hc]

theorem inToken_point (next : Option Char) : inToken '.' next = next.any Char.isDigit := by
  have hdigit : '.'.isDigit = false := by decide
  have hsymbol : isSymbol '.' = false := by decide
  simp [inToken, hdigit, hsymbol]

theorem inToken_of_ends {c : Char} (hc : Pending.Ends c) (next : Option Char) :
    inToken c next = isSymbol c := by
  have hpoint : (c == '.') = false := by simpa using hc.2
  simp [inToken, hc.1, hpoint]

namespace Pending

/-- What a pending number is going to give to the text of a token, where `next`
    stands behind it: a point waits for a digit. -/
def chars (next : Option Char) : Pending → List Char
  | nothing => []
  | whole digits => digits.toList
  | point digits => digits.toList ++ if next.any Char.isDigit then ['.'] else []
  | fraction text => text.toList

theorem flatMap_text_flush {next : Option Char} (hnext : next.any Char.isDigit = false)
    (pending : Pending) :
    pending.flush.flatMap (·.text.toList) = pending.chars next := by
  cases pending with
  | nothing => rfl
  | whole digits => simp [flush, chars]
  | point digits =>
    by_cases hempty : digits = ""
    · simp [flush, chars, hnext, hempty]
    · simp [flush, chars, hnext, hempty]
  | fraction text => simp [flush, chars]

theorem chars_addDigit {c : Char} (hc : c.isDigit = true) (pending : Pending)
    (next : Option Char) :
    (pending.addDigit c).chars next = pending.chars (some c) ++ [c] := by
  cases pending <;> simp [addDigit, chars, hc]

theorem flatMap_text_symbol (c : Char) :
    (symbol c).flatMap (·.text.toList) = if isSymbol c then [c] else [] := by
  unfold symbol isSymbol
  split
  · next hc => simp [hc]
  · next hc =>
    split
    · next hl => simp [hl]
    · next hl =>
      split
      · next hr => simp [hr]
      · next hr => simp_all

theorem scan_point_whole (digits : String) (cs : List Char) :
    (whole digits).scan ('.' :: cs) = (point digits).scan cs := by
  simp [scan, step]

/-- Anywhere but behind a row of digits a point begins afresh. -/
theorem scan_point_anew {pending : Pending} (h : ∀ digits, pending ≠ whole digits)
    (cs : List Char) : pending.scan ('.' :: cs) = pending.flush ++ (point "").scan cs := by
  cases pending with
  | whole digits => exact absurd rfl (h digits)
  | nothing => simp [scan, step]
  | point digits => simp [scan, step]
  | fraction text => simp [scan, step]

/-- **The tokens hold what they can**: the number that is pending, and of what follows
    every character that may be part of a token. -/
theorem flatMap_text_scan (pending : Pending) (cs : List Char) :
    (pending.scan cs).flatMap (·.text.toList) = pending.chars cs.head? ++ held cs := by
  -- A digit goes on with the pending number, a point does so behind digits and begins
  -- another one elsewhere, and any other character ends it.
  induction cs generalizing pending with
  | nil => simpa [scan, held] using flatMap_text_flush rfl pending
  | cons c cs ih =>
    rw [List.head?_cons, held]
    by_cases hdigit : c.isDigit = true
    · rw [scan_digit hdigit, ih, chars_addDigit hdigit, inToken_of_isDigit hdigit, if_pos rfl,
        List.append_assoc, List.singleton_append]
    · have hflush : pending.flush.flatMap (·.text.toList) = pending.chars (some c) :=
        pending.flatMap_text_flush (by simpa using hdigit)
      by_cases hpoint : c = '.'
      · subst hpoint
        rw [inToken_point]
        by_cases hwhole : ∃ digits, pending = whole digits
        · obtain ⟨digits, rfl⟩ := hwhole
          rw [scan_point_whole, ih, chars, chars, List.append_assoc]
          cases cs.head?.any Char.isDigit <;> rfl
        · rw [scan_point_anew fun digits h => hwhole ⟨digits, h⟩, List.flatMap_append, hflush, ih,
            chars]
          cases cs.head?.any Char.isDigit <;> simp
      · have hends : Ends c := ⟨by simpa using hdigit, hpoint⟩
        rw [scan_ends hends, scan_cons_ends hends, List.flatMap_append, List.flatMap_append,
          hflush, flatMap_text_symbol, ih, inToken_of_ends hends]
        cases isSymbol c <;> simp [chars]

end Pending

/-! ### What an expression loses -/

/-- Every point has a digit directly behind it. -/
def PointsFollowed (cs : List Char) : Prop :=
  ∀ before after, cs = before ++ '.' :: after → after.head?.any Char.isDigit = true

theorem pointsFollowed_cons {c : Char} {cs : List Char} :
    PointsFollowed (c :: cs) ↔
      (c = '.' → cs.head?.any Char.isDigit = true) ∧ PointsFollowed cs := by
  constructor
  · intro h
    refine ⟨fun hc => h [] cs (by rw [hc]; rfl), fun before after hcs => ?_⟩
    exact h (c :: before) after (by rw [hcs]; rfl)
  · rintro ⟨hfirst, hrest⟩ before after hcs
    cases before with
    | nil =>
      obtain ⟨rfl, rfl⟩ := List.cons.inj hcs
      exact hfirst rfl
    | cons b before =>
      obtain ⟨-, rfl⟩ := List.cons.inj hcs
      exact hrest before after rfl

def withoutSpaces (cs : List Char) : List Char := cs.filter (· != ' ')

/-- No token holds a space. -/
theorem held_sublist (cs : List Char) : (held cs).Sublist (withoutSpaces cs) := by
  induction cs with
  | nil => exact .slnil
  | cons c cs ih =>
    rw [held, withoutSpaces]
    by_cases hspace : c = ' '
    · subst hspace
      exact ih
    · rw [List.filter_cons_of_pos (by simpa using hspace)]
      split
      · exact ih.cons_cons c
      · exact ih.cons c

/-- The characters of the alphabet: spaces, points and what is always part of a token. -/
theorem inAlphabet_cases {c : Char} (h : inAlphabet c = true) :
    c = ' ' ∨ c = '.' ∨ ∀ next, inToken c next = true := by
  simp only [inAlphabet, Bool.or_eq_true, beq_iff_eq] at h
  by_cases hspace : c = ' '
  · exact Or.inl hspace
  · by_cases hpoint : c = '.'
    · exact Or.inr (Or.inl hpoint)
    · refine Or.inr (Or.inr fun next => ?_)
      simp only [inToken, isSymbol, Bool.or_eq_true, beq_iff_eq]
      tauto

/-- **Which expressions lose nothing but spaces.** -/
theorem held_eq_withoutSpaces_iff {cs : List Char} (h : ∀ c ∈ cs, inAlphabet c = true) :
    held cs = withoutSpaces cs ↔ PointsFollowed cs := by
  induction cs with
  | nil => simp [held, withoutSpaces, PointsFollowed]
  | cons c cs ih =>
    have hrest := ih fun c hc => h c (by simp [hc])
    rw [pointsFollowed_cons, ← hrest, held]
    rcases inAlphabet_cases (h c (by simp)) with rfl | rfl | hin
    · have hspace : inToken ' ' cs.head? = false :=
        inToken_of_ends (by unfold Pending.Ends; decide) cs.head?
      have hdropped : withoutSpaces (' ' :: cs) = withoutSpaces cs := rfl
      simp [hspace, hdropped]
    · have hkept : withoutSpaces ('.' :: cs) = '.' :: withoutSpaces cs := rfl
      rw [inToken_point, hkept]
      cases hnext : cs.head?.any Char.isDigit with
      | true => simp
      | false =>
        -- A point that is skipped leaves too few characters.
        have hle := (held_sublist cs).length_le
        have hne : held cs ≠ '.' :: withoutSpaces cs := by
          intro heq
          rw [heq, List.length_cons] at hle
          omega
        simp [hne]
    · have hspace : c ≠ ' ' := by
        rintro rfl
        exact absurd (hin none) (by decide)
      have hpoint : c ≠ '.' := by
        rintro rfl
        exact absurd (hin none) (by decide)
      have hkept : withoutSpaces (c :: cs) = c :: withoutSpaces cs :=
        List.filter_cons_of_pos (by simpa using hspace)
      simp [hin, hkept, hpoint]

/-- The texts of the tokens, one behind the other. -/
theorem join_text_of_tokenize {text : String} {tokens : List Token}
    (h : tokenize text = .ok tokens) :
    String.join (tokens.map Token.text) = String.ofList (held text.toList) := by
  rw [← scan_of_tokenize h, ← String.toList_inj, String.toList_join, List.flatMap_map,
    Pending.flatMap_text_scan]
  simp [Pending.chars]

/-- **What an accepted expression loses.**  Its tokens hold all but its spaces and the
    points that no digit follows.  So they hold all but its spaces if and only if every
    point has a digit directly behind it. -/
theorem tokens_hold_all_iff {text : String} {x : Float}
    (halphabet : ∀ c ∈ text.toList, inAlphabet c = true) (h : calculate text = .ok x) :
    ∃ tokens, tokenize text = .ok tokens ∧
      String.join (tokens.map Token.text) = String.ofList (held text.toList) ∧
      (String.join (tokens.map Token.text) = String.ofList (withoutSpaces text.toList) ↔
        PointsFollowed text.toList) := by
  obtain ⟨-, -, tokens, m, htokens, -⟩ := passed_of_calculate h
  have hjoin := join_text_of_tokenize htokens
  refine ⟨tokens, htokens, hjoin, ?_⟩
  rw [hjoin, String.ofList_inj]
  exact held_eq_withoutSpaces_iff halphabet

/-- The first point is part of `.5`, and the second of nothing. -/
theorem tokens_hold_all_iff_loose_point :
    ∃ tokens, tokenize "2*.5 + 1." = .ok tokens ∧
      String.join (tokens.map Token.text) = "2*.5+1" ∧
      String.join (tokens.map Token.text) ≠ "2*.5+1." := by
  obtain ⟨tokens, htokens, hjoin, -⟩ := @tokens_hold_all_iff "2*.5 + 1." 2
    (List.all_eq_true.mp (by decide +kernel)) (by decide +kernel)
  have hheld : held "2*.5 + 1.".toList = "2*.5+1".toList := by decide +kernel
  rw [hheld, String.ofList_toList] at hjoin
  refine ⟨tokens, htokens, hjoin, ?_⟩
  rw [hjoin]
  decide

/-- A point behind digits that none follow is passed over, and the calculation goes on. -/
theorem loose_point_ignored :
    ∃ tokens, (∀ c ∈ "1.+2".toList, inAlphabet c = true) ∧ calculate "1.+2" = .ok 3 ∧
      tokenize "1.+2" = .ok tokens ∧
      String.join (tokens.map Token.text) ≠ String.ofList (withoutSpaces "1.+2".toList) := by
  refine ⟨[⟨.number, "1"⟩, ⟨.operator, "+"⟩, ⟨.number, "2"⟩],
    List.all_eq_true.mp (by decide +kernel), by decide +kernel, by decide +kernel, ?_⟩
  have hkept : withoutSpaces "1.+2".toList = ['1', '.', '+', '2'] := by decide +kernel
  rw [hkept]
  simp [← String.toList_inj]

end Reckoner
