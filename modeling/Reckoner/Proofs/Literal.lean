/-
  Reckoner/Proofs/Literal.lean
  ============================
  **Literals are operands.**  The reader of numerals accepts far more than the
  calculator's literals: digits of every script, group marks, exponents, blanks.
  On a literal none of this matters.  It is read as the double nearest to the
  decimal that it writes, negated if it has a sign (`readFloat?_literal`), so it
  is an operand as soon as that double is in the safe range.
-/
import Reckoner.Operand
import Reckoner.Proofs.Binary64
import Reckoner.Proofs.Grammar

namespace Reckoner

open Reckoner.Number Reckoner.Text

/-! ### The characters of a literal -/

theorem Lexeme.chars_ne_nil (d : Lexeme) : d.chars ≠ [] := by
  simp [Lexeme.chars, d.last_ne_nil]

theorem Lexeme.digit_or_point (d : Lexeme) :
    ∀ c ∈ d.chars, c.isDigit = true ∨ c = '.' := by
  intro c hc
  simp only [Lexeme.chars, List.mem_append] at hc
  rcases hc with hc | hc | hc
  · exact Or.inl (d.whole_digits c hc)
  · split at hc
    · exact Or.inr (List.mem_singleton.mp hc)
    · cases hc
  · exact Or.inl (d.last_digits c hc)

/-- A digit, a point or a minus is none of the characters that a reader of
    numerals treats on its own. -/
theorem not_isBlank_of_digit_or_point {c : Char} (h : c.isDigit = true ∨ c = '.') :
    isBlank c = false ∧ c ≠ '_' ∧ c ≠ '-' ∧ c ≠ '+' := by
  rcases h with h | rfl
  · simp only [Char.isDigit, Bool.and_eq_true, decide_eq_true_eq] at h
    have hlo : 48 ≤ c.toNat := h.1
    have hhi : c.toNat ≤ 57 := h.2
    refine ⟨?_, ?_, ?_, ?_⟩
    · simp only [isBlank, Bool.or_eq_false_iff, Bool.and_eq_false_iff, decide_eq_false_iff_not,
        beq_eq_false_iff_ne]
      omega
    all_goals
      rintro rfl
      revert hlo hhi
      decide
  · decide

theorem Literal.not_isBlank (l : Literal) : ∀ c ∈ l.chars, isBlank c = false := by
  intro c hc
  simp only [Literal.chars, List.mem_append] at hc
  rcases hc with hc | hc
  · split at hc
    · rw [List.mem_singleton.mp hc]; decide
    · cases hc
  · exact (not_isBlank_of_digit_or_point (l.lexeme.digit_or_point c hc)).1

theorem Literal.chars_ne_nil (l : Literal) : l.chars ≠ [] := by
  simp [Literal.chars, l.lexeme.chars_ne_nil]

/-! ### Reading the digits -/

/-- The run of ten digits that comes first in the table is the ASCII one. -/
theorem digitValue?_of_isDigit {c : Char} (h : c.isDigit = true) :
    digitValue? c = some (Lexeme.digitValue c) := by
  simp only [Char.isDigit, Bool.and_eq_true, decide_eq_true_eq] at h
  have hlo : 48 ≤ c.toNat := h.1
  have hhi : c.toNat ≤ 57 := h.2
  have hin : (decide (0x30 ≤ c.toNat) && decide (c.toNat < 0x30 + 10)) = true := by
    simp only [Bool.and_eq_true, decide_eq_true_eq]
    omega
  rw [digitValue?, zeroDigits, List.findSome?_cons, if_pos hin]
  rfl

theorem digitRun_digits {ds : List Char} (hds : ∀ c ∈ ds, c.isDigit = true)
    (rest : List Char) (hrest : ∀ c ∈ rest.head?, digitValue? c = none) :
    digitRun (ds ++ rest) = (ds.map Lexeme.digitValue, rest) := by
  induction ds with
  | nil =>
    cases rest with
    | nil => rfl
    | cons c cs => simp [digitRun, hrest c (by simp)]
  | cons d ds ih =>
    have hd := digitValue?_of_isDigit (hds d (by simp))
    have := ih fun c hc => hds c (by simp [hc])
    simp [digitRun, hd, this]

theorem Decimal.read?_lexeme (d : Lexeme) : Decimal.read? d.chars = some d.decimal := by
  have hlast : d.last.map Lexeme.digitValue ≠ [] := by simp [d.last_ne_nil]
  cases hp : d.pointed with
  | false =>
    have hall : ∀ c ∈ d.whole ++ d.last, c.isDigit = true := by
      intro c hc
      rcases List.mem_append.mp hc with hc | hc
      · exact d.whole_digits c hc
      · exact d.last_digits c hc
    have hrun := digitRun_digits hall [] (by simp)
    rw [List.append_nil] at hrun
    simp [Decimal.read?, Lexeme.chars, Lexeme.decimal, hp, hrun, readFraction, readExponent?,
      d.last_ne_nil]
  | true =>
    have hwhole := digitRun_digits d.whole_digits ('.' :: d.last)
      (by simp only [List.head?_cons, Option.mem_some_iff, forall_eq']; decide +kernel)
    have hfrac := digitRun_digits d.last_digits [] (by simp)
    rw [List.append_nil] at hfrac
    simp [Decimal.read?, Lexeme.chars, Lexeme.decimal, hp, hwhole, hfrac, readFraction,
      readExponent?, d.last_ne_nil]

/-! ### Reading a literal -/

theorem Char.toLower_of_isDigit {c : Char} (h : c.isDigit = true) : c.toLower = c := by
  simp only [Char.isDigit, Bool.and_eq_true, decide_eq_true_eq] at h
  have hhi : c.toNat ≤ 57 := h.2
  unfold Char.toLower
  rw [dif_neg]
  rintro ⟨hA, -⟩
  have : 65 ≤ c.toNat := hA
  omega

/-- No name of an infinity or of no number begins like a numeral. -/
theorem Magnitude.read?_lexeme (d : Lexeme) :
    Magnitude.read? d.chars = some (.decimal d.decimal) := by
  obtain ⟨c, cs, hcs⟩ := List.exists_cons_of_ne_nil d.chars_ne_nil
  have hlower : c.toLower ≠ 'i' ∧ c.toLower ≠ 'n' := by
    rcases d.digit_or_point c (by simp [hcs]) with hc | rfl
    · rw [Char.toLower_of_isDigit hc]
      constructor <;> (rintro rfl; revert hc; decide)
    · decide
  have hname : ∀ (a : Char) (name : List Char), c.toLower ≠ a →
      (String.ofList (d.chars.map Char.toLower) == String.ofList (a :: name)) = false := by
    intro a name ha
    simp [hcs, String.ofList_inj, ha]
  have hinf := hname 'i' ['n', 'f'] hlower.1
  have hinfinity := hname 'i' ['n', 'f', 'i', 'n', 'i', 't', 'y'] hlower.1
  have hnan := hname 'n' ['a', 'n'] hlower.2
  unfold Magnitude.read?
  simp only [Decimal.read?_lexeme, Option.map_some]
  rw [if_neg, if_neg]
  · simpa using hnan
  · simpa using And.intro hinf hinfinity

theorem trim_of_not_blank {blank : Char → Bool} {cs : List Char}
    (h : ∀ c ∈ cs, blank c = false) : trim blank cs = cs := by
  have hdrop : ∀ ds : List Char, (∀ c ∈ ds, blank c = false) → ds.dropWhile blank = ds := by
    intro ds hds
    cases ds with
    | nil => rfl
    | cons c ds => simp [hds c (by simp)]
  rw [trim, hdrop cs h, hdrop cs.reverse (by simpa using h), List.reverse_reverse]

theorem dropGroupMarks_of_none {cs : List Char} (h : ∀ c ∈ cs, c ≠ '_') (afterDigit : Bool) :
    dropGroupMarks afterDigit cs = cs := by
  induction cs generalizing afterDigit with
  | nil => rfl
  | cons c cs ih =>
    have hc : (c == '_') = false := by simpa using h c (by simp)
    simp [dropGroupMarks, hc, ih fun d hd => h d (by simp [hd])]

theorem signAndBody_literal (l : Literal) :
    signAndBody l.chars = (l.negative, l.lexeme.chars) := by
  have htrim : trim isNumeralBlank l.chars = l.chars :=
    trim_of_not_blank fun c hc => by simp [isNumeralBlank, l.not_isBlank c hc]
  have hmarks : dropGroupMarks false l.lexeme.chars = l.lexeme.chars :=
    dropGroupMarks_of_none
      (fun c hc => (not_isBlank_of_digit_or_point (l.lexeme.digit_or_point c hc)).2.1) false
  have hsplit : splitSign l.chars = (l.negative, l.lexeme.chars) := by
    cases hn : l.negative with
    | true => simp [Literal.chars, hn, splitSign]
    | false =>
      obtain ⟨c, cs, hcs⟩ := List.exists_cons_of_ne_nil l.lexeme.chars_ne_nil
      obtain ⟨-, -, hminus, hplus⟩ :=
        not_isBlank_of_digit_or_point (l.lexeme.digit_or_point c (by simp [hcs]))
      simp only [Literal.chars, hn, hcs, Bool.false_eq_true, if_false, List.nil_append]
      unfold splitSign
      split <;> simp_all
  rw [signAndBody, htrim, hsplit]
  simp [hmarks]

/-- **A literal is read as what it denotes.** -/
theorem readFloat?_literal (l : Literal) : readFloat? l.text = some l.value := by
  have hread : Numeral.read? l.text = some ⟨l.negative, .decimal l.lexeme.decimal⟩ := by
    simp [Numeral.read?, Literal.text, signAndBody_literal, Magnitude.read?_lexeme]
  rw [readFloat?, hread]
  rfl

/-! ### Operands -/

theorem checkOperand_literal {l : Literal} (h : inSafeRange l.value = true) :
    checkOperand l.text = .ok l.value := by
  simp [checkOperand, parseNumber, readFloat?_literal, checkNumber, isFinite_of_inSafeRange h, h]

/-- Its sign matters neither to whether a literal is finite nor to whether it is in
    the safe range. -/
theorem Literal.isFinite_value (l : Literal) : l.value.isFinite = l.lexeme.value.isFinite := by
  rw [value]
  split
  · exact isFinite_neg l.lexeme.value
  · rfl

theorem Literal.inSafeRange_value (l : Literal) :
    inSafeRange l.value = inSafeRange l.lexeme.value := by
  rw [value]
  split
  · exact inSafeRange_neg l.lexeme.value
  · rfl

theorem isFiniteNumeral_literal (l : Literal) :
    isFiniteNumeral l.text = l.lexeme.value.isFinite := by
  rw [isFiniteNumeral, readFloat?_literal, Option.any_some, l.isFinite_value]

/-- An operand is what reads as a double in the safe range. -/
theorem checkOperand_eq_ok {text : String} {x : Float} :
    checkOperand text = .ok x ↔ readFloat? text = some x ∧ inSafeRange x = true := by
  cases hread : readFloat? text with
  | none => simp [checkOperand, parseNumber, hread, fail]
  | some y =>
    cases hy : inSafeRange y with
    | true =>
      have hfin := isFinite_of_inSafeRange hy
      simp only [checkOperand, parseNumber, hread, checkNumber, hfin, hy]
      constructor
      · rintro ⟨⟩; exact ⟨rfl, hy⟩
      · rintro ⟨⟨⟩, -⟩; rfl
    | false =>
      have hne : ∀ z, checkNumber y ≠ .ok z := by
        intro z
        cases hf : y.isFinite <;> simp [checkNumber, hf, hy, fail]
      constructor
      · intro h
        simp only [checkOperand, parseNumber, hread] at h
        cases hc : checkNumber y with
        | ok z => exact absurd hc (hne z)
        | error f => rw [hc] at h; cases h
      · rintro ⟨⟨⟩, hx⟩
        rw [hy] at hx; cases hx

/-- No operand is written like an operator. -/
theorem ofText?_eq_none_of_readFloat? {text : String} (h : (readFloat? text).isSome = true) :
    Operator.ofText? text = none := by
  have hsymbol : ∀ operator : Operator, (readFloat? operator.symbol).isSome = false := by
    intro operator
    cases operator <;> decide +kernel
  rw [Operator.ofText?, List.find?_eq_none]
  intro operator _ heq
  rw [← eq_of_beq heq, hsymbol operator] at h
  cases h

end Reckoner
