/-
  Reckoner/Proofs/Lexing.lean
  ===========================
  **From text to tokens.**  Two things are shown of the lexer:

    * it undoes any layout: a text that shows leaves with spaces between them is
      cut into exactly the tokens of those leaves (`scan_spaced`), provided that
      no two numerals stand side by side, for those would run together;
    * whatever the text, every token is spelled as its kind asks
      (`Sound.scan`), and the parentheses among the tokens pair up as they do
      in the text (`balanced_scan`).

  The first is about what is written on purpose, the second about every input.
-/
import Reckoner.Expression
import Reckoner.Token.Lexer
import Mathlib.Data.List.Chain
import Reckoner.Proofs.Literal

namespace Reckoner

open Reckoner.Number Reckoner.Text

namespace Pending

/-! ### Numerals -/

theorem scan_digit {c : Char} (hc : c.isDigit = true) (pending : Pending) (cs : List Char) :
    pending.scan (c :: cs) = (pending.addDigit c).scan cs := by
  simp [scan, step, hc]

/-- A character that cannot go on with any number. -/
def Ends (c : Char) : Prop := c.isDigit = false ∧ c ≠ '.'

theorem scan_ends {c : Char} (hc : Ends c) (pending : Pending) (cs : List Char) :
    pending.scan (c :: cs) = pending.flush ++ nothing.scan (c :: cs) := by
  have hpoint : (c == '.') = false := by simpa using hc.2
  simp [scan, step, hc.1, hpoint, flush]

theorem scan_cons_ends {c : Char} (hc : Ends c) (cs : List Char) :
    nothing.scan (c :: cs) = symbol c ++ nothing.scan cs := by
  have hpoint : (c == '.') = false := by simpa using hc.2
  simp [scan, step, hc.1, hpoint, flush]

theorem scan_flush {rest : List Char} (hrest : ∀ c ∈ rest.head?, Ends c) (pending : Pending) :
    pending.scan rest = pending.flush ++ nothing.scan rest := by
  cases rest with
  | nil => simp [scan, flush]
  | cons c cs => exact scan_ends (hrest c (by simp)) pending cs

/-- Digits extend the pending number in either of the states that keep its text. -/
theorem scan_growing {grow : String → Pending}
    (hgrow : ∀ text c, (grow text).addDigit c = grow (text.push c))
    {ds : List Char} (hds : ∀ c ∈ ds, c.isDigit = true) (cs rest : List Char) :
    (grow (String.ofList cs)).scan (ds ++ rest) =
      (grow (String.ofList (cs ++ ds))).scan rest := by
  induction ds generalizing cs with
  | nil => simp
  | cons d ds ih =>
    have hpush : (String.ofList cs).push d = String.ofList (cs ++ [d]) := by
      rw [← String.toList_inj]; simp
    rw [List.cons_append, scan_digit (hds d (by simp)), hgrow, hpush,
      ih (fun c hc => hds c (by simp [hc])), List.append_assoc, List.singleton_append]

/-- A first row of digits, perhaps an empty one, makes no number pending or its
    own. -/
theorem scan_digits {ds : List Char} (hds : ∀ c ∈ ds, c.isDigit = true) (rest : List Char) :
    nothing.scan (ds ++ rest) =
      (if ds = [] then nothing else whole (String.ofList ds)).scan rest := by
  cases ds with
  | nil => simp
  | cons d ds =>
    have hd : d.toString = String.ofList [d] := by
      rw [← String.toList_inj]; simp
    rw [List.cons_append, scan_digit (hds d (by simp)), addDigit, hd,
      scan_growing (fun _ _ => rfl) fun c hc => hds c (by simp [hc])]
    simp

theorem scan_point (cs ds rest : List Char) {d : Char} (hd : d.isDigit = true)
    (hds : ∀ c ∈ ds, c.isDigit = true) :
    (point (String.ofList cs)).scan (d :: ds ++ rest) =
      (fraction (String.ofList (cs ++ '.' :: d :: ds))).scan rest := by
  have hpush : ((String.ofList cs).push '.').push d = String.ofList (cs ++ ['.', d]) := by
    rw [← String.toList_inj]; simp
  rw [List.cons_append, scan_digit hd, addDigit, hpush, scan_growing (fun _ _ => rfl) hds]
  simp

/-- **A numeral is one token.**  What follows must not go on with it. -/
theorem scan_lexeme (d : Lexeme) {rest : List Char} (hrest : ∀ c ∈ rest.head?, Ends c) :
    nothing.scan (d.chars ++ rest) = ⟨.number, d.text⟩ :: nothing.scan rest := by
  obtain ⟨c, cs, hlast⟩ := List.exists_cons_of_ne_nil d.last_ne_nil
  have hdigits := d.last_digits
  rw [hlast] at hdigits
  have hc : c.isDigit = true := hdigits c (by simp)
  have hcs : ∀ b ∈ cs, b.isDigit = true := fun b hb => hdigits b (by simp [hb])
  cases hp : d.pointed with
  | false =>
    have hall : ∀ c ∈ d.whole ++ d.last, c.isDigit = true := by
      intro c hc
      rcases List.mem_append.mp hc with hc | hc
      · exact d.whole_digits c hc
      · exact d.last_digits c hc
    have hchars : d.chars = d.whole ++ d.last := by simp [Lexeme.chars, hp]
    have hne : d.whole ++ d.last ≠ [] := by simp [d.last_ne_nil]
    rw [hchars, scan_digits hall, if_neg hne, scan_flush hrest]
    simp [flush, Lexeme.text, hchars]
  | true =>
    have hchars : d.chars = d.whole ++ '.' :: d.last := by simp [Lexeme.chars, hp]
    have hpoint : ∀ ds : List Char,
        (if ds = [] then nothing else whole (String.ofList ds)).scan ('.' :: d.last ++ rest) =
          (point (String.ofList ds)).scan (d.last ++ rest) := by
      intro ds
      cases ds <;> simp [scan, step, flush]
    rw [hchars, List.append_assoc, scan_digits d.whole_digits, hpoint, hlast,
      scan_point _ _ _ hc hcs, scan_flush hrest]
    simp [flush, Lexeme.text, hchars, hlast]

/-! ### Layout -/

theorem scan_spaces (n : Nat) (cs : List Char) :
    nothing.scan (List.replicate n ' ' ++ cs) = nothing.scan cs := by
  induction n with
  | zero => rfl
  | succ n ih =>
    rw [List.replicate_succ, List.cons_append, scan]
    exact ih

/-- Whether two leaves may stand side by side without a space. -/
def Apart : Leaf → Leaf → Prop
  | .number _, .number _ => False
  | _, _ => True

theorem ends_of_spaced {leaves : List Leaf} {cs : List Char} (h : Spaced leaves cs)
    {d : Lexeme} (hapart : ∀ leaf ∈ leaves.head?, Apart (.number d) leaf) :
    ∀ c ∈ cs.head?, Ends c := by
  have hspace : Ends ' ' := by unfold Ends; decide
  intro c hc
  cases h with
  | nil spaces =>
    cases spaces with
    | zero => cases hc
    | succ n => cases hc; exact hspace
  | cons spaces leaf rest =>
    cases spaces with
    | succ n => cases hc; exact hspace
    | zero =>
      have hleaf := hapart leaf (by simp)
      unfold Ends
      cases leaf with
      | number e => exact hleaf.elim
      | operator op => cases op <;> (cases hc; decide)
      | opening => cases hc; decide
      | closing => cases hc; decide

/-- **The lexer undoes layout.** -/
theorem scan_spaced {leaves : List Leaf} {cs : List Char} (h : Spaced leaves cs)
    (hapart : leaves.IsChain Apart) : nothing.scan cs = leaves.map Leaf.token := by
  induction h with
  | nil spaces =>
    have := scan_spaces spaces []
    rwa [List.append_nil] at this
  | @cons spaces leaf leaves cs hspaced ih =>
    obtain ⟨hhead, htail⟩ := List.isChain_cons.mp hapart
    rw [scan_spaces, List.map_cons, ← ih htail]
    cases leaf with
    | number d =>
      have htext : (Leaf.number d).text.toList = d.chars := by simp [Leaf.text, Lexeme.text]
      rw [htext, scan_lexeme d (ends_of_spaced hspaced hhead)]
      rfl
    | operator op => cases op <;> rfl
    | opening => rfl
    | closing => rfl

/-! ### Spelling -/

/-- What a pending number says of the characters behind it. -/
def Sound : Pending → Prop
  | nothing => True
  | whole digits =>
    ∃ ds : List Char, ds ≠ [] ∧ (∀ c ∈ ds, c.isDigit = true) ∧ digits = String.ofList ds
  | point digits => ∃ ds : List Char, (∀ c ∈ ds, c.isDigit = true) ∧ digits = String.ofList ds
  | fraction text => ∃ d : Lexeme, d.pointed = true ∧ text = d.text

theorem Sound.addDigit {pending : Pending} (h : pending.Sound) {c : Char}
    (hc : c.isDigit = true) : (pending.addDigit c).Sound := by
  have hone : ∀ b ∈ [c], b.isDigit = true := by
    intro b hb
    rw [List.mem_singleton.mp hb]; exact hc
  cases pending with
  | nothing =>
    refine ⟨[c], by simp, hone, ?_⟩
    rw [← String.toList_inj]; simp
  | whole digits =>
    obtain ⟨ds, -, hds, rfl⟩ := h
    refine ⟨ds ++ [c], by simp, ?_, ?_⟩
    · intro b hb
      rcases List.mem_append.mp hb with hb | hb
      · exact hds b hb
      · exact hone b hb
    · rw [← String.toList_inj]; simp
  | point digits =>
    obtain ⟨ds, hds, rfl⟩ := h
    refine ⟨⟨ds, true, [c], hds, hone, by simp⟩, rfl, ?_⟩
    rw [← String.toList_inj]; simp [Lexeme.text, Lexeme.chars]
  | fraction text =>
    obtain ⟨d, hd, rfl⟩ := h
    refine ⟨⟨d.whole, true, d.last ++ [c], d.whole_digits, ?_, by simp⟩, rfl, ?_⟩
    · intro b hb
      rcases List.mem_append.mp hb with hb | hb
      · exact d.last_digits b hb
      · exact hone b hb
    · rw [← String.toList_inj]; simp [Lexeme.text, Lexeme.chars, hd]

theorem Sound.step {pending : Pending} (h : pending.Sound) (c : Char) :
    (pending.step c).2.Sound := by
  have hempty : (point "").Sound := ⟨[], by simp, rfl⟩
  unfold Pending.step
  split
  · next hc => exact h.addDigit hc
  · split
    · cases pending with
      | whole digits =>
        obtain ⟨ds, -, hds, rfl⟩ := h
        exact ⟨ds, hds, rfl⟩
      | nothing => exact hempty
      | point digits => exact hempty
      | fraction text => exact hempty
    · trivial

theorem Sound.flush {pending : Pending} (h : pending.Sound) :
    ∀ t ∈ pending.flush, ∃ d : Lexeme, t = (Leaf.number d).token := by
  intro t ht
  have hdigits : ∀ ds : List Char, ds ≠ [] → (∀ c ∈ ds, c.isDigit = true) →
      t = ⟨.number, String.ofList ds⟩ → ∃ d : Lexeme, t = (Leaf.number d).token := by
    intro ds hne hds heq
    refine ⟨.row false ds hds hne, ?_⟩
    simp [heq, Leaf.token, Lexeme.text, Lexeme.chars, Lexeme.row]
  cases pending with
  | nothing => cases ht
  | whole digits =>
    obtain ⟨ds, hne, hds, rfl⟩ := h
    exact hdigits ds hne hds (List.mem_singleton.mp ht)
  | point digits =>
    obtain ⟨ds, hds, rfl⟩ := h
    by_cases hne : ds = []
    · subst hne; cases ht
    · refine hdigits ds hne hds ?_
      simpa [Pending.flush, hne] using ht
  | fraction text =>
    obtain ⟨d, -, rfl⟩ := h
    exact ⟨d, List.mem_singleton.mp ht⟩

theorem symbol_leaf (c : Char) : ∀ t ∈ symbol c, ∃ leaf : Leaf, t = leaf.token := by
  intro t ht
  unfold symbol at ht
  split at ht
  · next hc =>
    simp only [Bool.or_eq_true, beq_iff_eq, or_assoc] at hc
    rw [List.mem_singleton] at ht
    rcases hc with rfl | rfl | rfl | rfl
    · exact ⟨.operator .add, ht⟩
    · exact ⟨.operator .subtract, ht⟩
    · exact ⟨.operator .multiply, ht⟩
    · exact ⟨.operator .divide, ht⟩
  · split at ht
    · next hc =>
      rw [eq_of_beq hc, List.mem_singleton] at ht
      exact ⟨.opening, ht⟩
    · split at ht
      · next hc =>
        rw [eq_of_beq hc, List.mem_singleton] at ht
        exact ⟨.closing, ht⟩
      · cases ht

/-- **Every token is a leaf.**  Whatever the text, a number token holds a numeral
    of the grammar, and every other token is spelled as its kind asks. -/
theorem Sound.scan {pending : Pending} (h : pending.Sound) (cs : List Char) :
    ∀ t ∈ pending.scan cs, ∃ leaf : Leaf, t = leaf.token := by
  have hflush : ∀ {pending : Pending}, pending.Sound → ∀ t ∈ pending.flush,
      ∃ leaf : Leaf, t = leaf.token := by
    intro pending h t ht
    obtain ⟨d, hd⟩ := h.flush t ht
    exact ⟨.number d, hd⟩
  induction cs generalizing pending with
  | nil => exact hflush h
  | cons c cs ih =>
    intro t ht
    rw [Pending.scan, List.mem_append] at ht
    rcases ht with ht | ht
    · unfold Pending.step at ht
      split at ht
      · cases ht
      · split at ht
        · cases pending with
          | whole digits => cases ht
          | nothing => exact hflush h t ht
          | point digits => exact hflush h t ht
          | fraction text => exact hflush h t ht
        · rcases List.mem_append.mp ht with ht | ht
          · exact hflush h t ht
          · exact symbol_leaf c t ht
    · exact ih (h.step c) t ht

/-! ### Parentheses -/

theorem kind_of_mem_flush {pending : Pending} : ∀ t ∈ pending.flush, t.kind = .number := by
  intro t ht
  cases pending with
  | nothing => cases ht
  | whole digits => rw [List.mem_singleton.mp ht]
  | point digits =>
    by_cases hempty : digits.isEmpty = true
    · simp [flush, hempty] at ht
    · simp only [flush, hempty] at ht
      rw [List.mem_singleton.mp ht]
  | fraction text => rw [List.mem_singleton.mp ht]

theorem symbol_of_isDigit {c : Char} (hc : c.isDigit = true) : symbol c = [] := by
  unfold symbol
  split
  · next h =>
    simp only [Bool.or_eq_true, beq_iff_eq, or_assoc] at h
    rcases h with rfl | rfl | rfl | rfl <;> (revert hc; decide)
  · split
    · next h => obtain rfl := eq_of_beq h; revert hc; decide
    · split
      · next h => obtain rfl := eq_of_beq h; revert hc; decide
      · rfl

/-- Beside the symbol that a character is, reading it completes numbers only. -/
theorem step_eq_numbers_append (pending : Pending) (c : Char) :
    ∃ ns : List Token, (∀ t ∈ ns, t.kind = .number) ∧ (pending.step c).1 = ns ++ symbol c := by
  unfold step
  split
  · next hc => exact ⟨[], by simp, by rw [symbol_of_isDigit hc]; rfl⟩
  · split
    · next hc =>
      have hsymbol : symbol c = [] := by rw [eq_of_beq hc]; rfl
      rw [hsymbol]
      cases pending with
      | whole digits => exact ⟨[], by simp, rfl⟩
      | nothing => exact ⟨[], by simp, rfl⟩
      | point digits => exact ⟨(point digits).flush, kind_of_mem_flush, by simp⟩
      | fraction text => exact ⟨(fraction text).flush, kind_of_mem_flush, by simp⟩
    · exact ⟨_, kind_of_mem_flush, rfl⟩

end Pending

/-- Whether the parentheses among tokens pair up, where `depth` of them are open
    at the start. -/
def balancedTokens : Nat → List Token → Bool
  | depth, [] => depth == 0
  | depth, t :: ts =>
    match t.kind with
    | .leftParen => balancedTokens (depth + 1) ts
    | .rightParen =>
      match depth with
      | 0 => false
      | outer + 1 => balancedTokens outer ts
    | _ => balancedTokens depth ts

theorem balancedTokens_cons_of_ne {t : Token} (hl : t.kind ≠ .leftParen)
    (hr : t.kind ≠ .rightParen) (depth : Nat) (ts : List Token) :
    balancedTokens depth (t :: ts) = balancedTokens depth ts := by
  cases hk : t.kind <;> simp_all [balancedTokens]

theorem balancedTokens_append_numbers {ns : List Token} (h : ∀ t ∈ ns, t.kind = .number)
    (depth : Nat) (ts : List Token) :
    balancedTokens depth (ns ++ ts) = balancedTokens depth ts := by
  induction ns with
  | nil => rfl
  | cons n ns ih =>
    have hn := h n (by simp)
    rw [List.cons_append, balancedTokens_cons_of_ne (by simp [hn]) (by simp [hn]),
      ih fun t ht => h t (by simp [ht])]

theorem balanced_cons_of_ne {c : Char} (hl : c ≠ '(') (hr : c ≠ ')') (depth : Nat)
    (cs : List Char) : balanced depth (c :: cs) = balanced depth cs := by
  simp [balanced, hl, hr]

theorem balancedTokens_symbol (c : Char) (depth : Nat) (cs : List Char) (ts : List Token)
    (h : ∀ depth, balancedTokens depth ts = balanced depth cs) :
    balancedTokens depth (Pending.symbol c ++ ts) = balanced depth (c :: cs) := by
  by_cases hl : c = '('
  · subst hl
    exact h (depth + 1)
  · by_cases hr : c = ')'
    · subst hr
      cases depth with
      | zero => rfl
      | succ outer => exact h outer
    · rw [balanced_cons_of_ne hl hr, ← h depth, Pending.symbol]
      simp only [beq_iff_eq, hl, hr, if_false]
      split
      · exact balancedTokens_cons_of_ne (by simp) (by simp) depth ts
      · rfl

/-- **The lexer keeps the parentheses**, so those of a text pair up if and only if
    those of its tokens do. -/
theorem balanced_scan (pending : Pending) (depth : Nat) (cs : List Char) :
    balancedTokens depth (pending.scan cs) = balanced depth cs := by
  induction cs generalizing pending depth with
  | nil =>
    have hflush : ∀ t ∈ pending.flush, t.kind = .number := Pending.kind_of_mem_flush
    have := balancedTokens_append_numbers hflush depth []
    rwa [List.append_nil] at this
  | cons c cs ih =>
    obtain ⟨ns, hns, hstep⟩ := pending.step_eq_numbers_append c
    rw [Pending.scan, hstep, List.append_assoc, balancedTokens_append_numbers hns]
    exact balancedTokens_symbol c depth cs _ fun depth => ih _ depth

end Reckoner
