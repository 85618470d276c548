/-
  Reckoner/Proofs/LongestMatch.lean
  =================================
  **The lexer takes the longest match.**  What it looks for is a numeral or a symbol
  (`Matches`).  A text is scanned from its start: where one of them begins, the longest
  one is taken and the scan goes on right behind it, and where none begins, one character
  is skipped (`Scanned`).

  The lexer itself reads every character once and never goes back.  It may do so because
  what it has read and not yet decided on is at most a numeral and a point behind it
  (`Pending.behind`), and whether the point belongs to the numeral is told by the next
  character.  So a scan of what is pending and of what follows is what the lexer gives
  (`exists_scanned`).

  Which characters are part of a token follows from the scan alone: those that begin a
  match, or go on with one (`Scanned.covered`).
-/
import Reckoner.Proofs.Coverage

namespace Reckoner

open Reckoner.Number Reckoner.Text

/-! ### Matches -/

/-- What a token may be written as: a numeral or a symbol. -/
inductive Matches : List Char → Prop where
  | numeral (d : Lexeme) : Matches d.chars
  | symbol {c : Char} : isSymbol c = true → Matches [c]

namespace Lexeme

theorem chars_row {ds : List Char} (hds : ∀ c ∈ ds, c.isDigit = true) (hne : ds ≠ []) :
    (row false ds hds hne).chars = ds := by
  simp [row, chars]

theorem chars_of_pointed {d : Lexeme} (h : d.pointed = true) :
    d.chars = d.whole ++ '.' :: d.last := by
  simp [chars, h]

theorem isDigit_of_not_pointed {d : Lexeme} (h : d.pointed = false) :
    ∀ c ∈ d.chars, c.isDigit = true := by
  intro c hc
  simp only [chars, h, Bool.false_eq_true, if_false, List.nil_append, List.mem_append] at hc
  rcases hc with hc | hc
  · exact d.whole_digits c hc
  · exact d.last_digits c hc

theorem head?_last (d : Lexeme) : d.last.head?.any Char.isDigit = true := by
  obtain ⟨c, cs, hlast⟩ := List.exists_cons_of_ne_nil d.last_ne_nil
  rw [hlast, List.head?_cons, Option.any_some]
  exact d.last_digits c (by simp [hlast])

/-- The first point of a row of characters splits it. -/
theorem eq_of_append_point {xs ys xs' ys' : List Char} (hxs : ∀ c ∈ xs, c.isDigit = true)
    (hxs' : ∀ c ∈ xs', c.isDigit = true) (h : xs ++ '.' :: ys = xs' ++ '.' :: ys') :
    xs = xs' ∧ ys = ys' := by
  have hpoint : '.'.isDigit = false := by decide
  have hfirst : ∀ zs us : List Char, (∀ c ∈ zs, c.isDigit = true) →
      (zs ++ '.' :: us).takeWhile Char.isDigit = zs := by
    intro zs us hzs
    rw [List.takeWhile_append_of_pos hzs, List.takeWhile_cons_of_neg (by simp [hpoint]),
      List.append_nil]
  have hwhole : xs = xs' := by
    rw [← hfirst xs ys hxs, h, hfirst xs' ys' hxs']
  subst hwhole
  exact ⟨rfl, (List.cons.inj (List.append_cancel_left h)).2⟩

/-- **A numeral is the longest match** where no digit follows it, and no point with a
    digit behind it if it has none itself. -/
theorem length_le_of_prefix {d : Lexeme} {rest : List Char}
    (hdigit : rest.head?.any Char.isDigit = false)
    (hpoint : d.pointed = false → ∀ after, rest = '.' :: after →
      after.head?.any Char.isDigit = false)
    {e : Lexeme} (h : e.chars <+: d.chars ++ rest) : e.chars.length ≤ d.chars.length := by
  by_contra hlonger
  obtain ⟨more, hmore⟩ : d.chars <+: e.chars :=
    List.prefix_of_prefix_length_le (List.prefix_append _ _) h (by omega)
  obtain ⟨after, hafter⟩ := h
  rw [← hmore, List.append_assoc, List.append_cancel_left_eq] at hafter
  cases more with
  | nil =>
    rw [← hmore, List.append_nil] at hlonger
    exact hlonger (Nat.le_refl _)
  | cons c more =>
    have hc : c = '.' := by
      rcases e.digit_or_point c (by simp [← hmore]) with hc | hc
      · rw [← hafter, List.cons_append, List.head?_cons, Option.any_some, hc] at hdigit
        cases hdigit
      · exact hc
    subst hc
    have hpointed : e.pointed = true := by
      by_contra hnot
      have := isDigit_of_not_pointed (Bool.eq_false_of_not_eq_true hnot) '.' (by simp [← hmore])
      cases this
    rw [chars_of_pointed hpointed] at hmore
    cases hd : d.pointed with
    | false =>
      obtain ⟨-, hlast⟩ :=
        eq_of_append_point (isDigit_of_not_pointed hd) e.whole_digits hmore
      have hnone := hpoint hd (more ++ after) hafter.symm
      have hsome := e.head?_last
      obtain ⟨b, bs, hbs⟩ := List.exists_cons_of_ne_nil e.last_ne_nil
      rw [hlast, hbs, List.cons_append, List.head?_cons] at hnone
      rw [hbs, List.head?_cons, hnone] at hsome
      cases hsome
    | true =>
      rw [chars_of_pointed hd, List.append_assoc, List.cons_append] at hmore
      obtain ⟨-, hlast⟩ := eq_of_append_point d.whole_digits e.whole_digits hmore
      have := e.last_digits '.' (by simp [← hlast])
      cases this

/-- The point of a numeral is behind its first row of digits, so the second row is right
    behind the point. -/
theorem digit_behind_point (d : Lexeme) (rest : List Char) {k : Nat} (hk : k < d.chars.length)
    (hc : d.chars[k]? = some '.') : (d.chars ++ rest)[k + 1]?.any Char.isDigit = true := by
  have hpointed : d.pointed = true := by
    by_contra hnot
    have := isDigit_of_not_pointed (Bool.eq_false_of_not_eq_true hnot) '.'
      (List.mem_of_getElem? hc)
    cases this
  rw [chars_of_pointed hpointed, List.getElem?_append] at hc
  split at hc
  · have := d.whole_digits '.' (List.mem_of_getElem? hc)
    cases this
  · cases hplace : k - d.whole.length with
    | zero =>
      obtain rfl : k = d.whole.length := by omega
      obtain ⟨b, bs, hbs⟩ := List.exists_cons_of_ne_nil d.last_ne_nil
      have hdigit := d.head?_last
      rw [hbs] at hdigit
      simpa [chars_of_pointed hpointed, hbs] using hdigit
    | succ n =>
      rw [hplace, List.getElem?_cons_succ] at hc
      have := d.last_digits '.' (List.mem_of_getElem? hc)
      cases this

end Lexeme

theorem isSymbol_iff {c : Char} :
    isSymbol c = true ↔ c = '+' ∨ c = '-' ∨ c = '*' ∨ c = '/' ∨ c = '(' ∨ c = ')' := by
  simp [isSymbol, or_assoc]

/-- A symbol goes on with no number and begins none. -/
theorem ends_of_isSymbol {c : Char} (h : isSymbol c = true) : Pending.Ends c := by
  unfold Pending.Ends
  rcases isSymbol_iff.mp h with rfl | rfl | rfl | rfl | rfl | rfl <;> decide

theorem Matches.ne_nil {w : List Char} (h : Matches w) : w ≠ [] := by
  cases h with
  | numeral d => exact d.chars_ne_nil
  | symbol hc => exact List.cons_ne_nil _ _

/-- **Every character of a match is part of a token**, whatever stands behind the match. -/
theorem Matches.inToken {w l : List Char} (hw : Matches w) (h : w <+: l) {k : Nat} {c : Char}
    (hk : k < w.length) (hc : l[k]? = some c) : inToken c l[k + 1]? = true := by
  obtain ⟨rest, rfl⟩ := h
  rw [List.getElem?_append_left hk] at hc
  have hmem : c ∈ w := List.mem_of_getElem? hc
  cases hw with
  | symbol hsymbol =>
    obtain rfl := List.mem_singleton.mp hmem
    rw [inToken_of_ends (ends_of_isSymbol hsymbol), hsymbol]
  | numeral d =>
    rcases d.digit_or_point c hmem with hdigit | rfl
    · exact inToken_of_isDigit hdigit _
    · rw [inToken_point]
      exact d.digit_behind_point rest hk hc

/-- Where a character may be part of a token, a match begins. -/
theorem exists_matches {c : Char} {rest : List Char} (h : inToken c rest.head? = true) :
    ∃ w, Matches w ∧ w <+: c :: rest := by
  simp only [inToken, Bool.or_eq_true, Bool.and_eq_true, beq_iff_eq] at h
  rcases h with (hdigit | hsymbol) | ⟨rfl, hnext⟩
  · refine ⟨_, .numeral (.digit false c hdigit), rest, ?_⟩
    simp [Lexeme.digit, Lexeme.row, Lexeme.chars]
  · exact ⟨_, .symbol hsymbol, rest, rfl⟩
  · obtain ⟨b, hb, hdigit⟩ := (Option.any_eq_true _ _).mp hnext
    obtain ⟨after, rfl⟩ := List.head?_eq_some_iff.mp hb
    refine ⟨_, .numeral (.digit true b hdigit), after, ?_⟩
    simp [Lexeme.digit, Lexeme.row, Lexeme.chars]

/-! ### Scans -/

/-- A token and the place where it begins in a text. -/
structure Span where
  start : Nat
  token : Token
deriving DecidableEq, Repr

namespace Span

/-- The place right behind a token. -/
def stop (s : Span) : Nat := s.start + s.token.text.length

/-- Whether the character at a place is part of a token. -/
def Holds (s : Span) (i : Nat) : Prop := s.start ≤ i ∧ i < s.stop

end Span

/-- The longest match that begins at a place. -/
structure LongestAt (cs : List Char) (i : Nat) (w : List Char) : Prop where
  isMatch : Matches w
  here : w <+: cs.drop i
  longest : ∀ w', Matches w' → w' <+: cs.drop i → w'.length ≤ w.length

/-- What a scan from a place on finds. -/
inductive Scanned (cs : List Char) : Nat → List Span → Prop where
  /-- Behind the last character there is nothing to find. -/
  | done {i : Nat} : cs.length ≤ i → Scanned cs i []
  /-- A character at which nothing begins is skipped. -/
  | skip {i : Nat} {spans : List Span} :
      i < cs.length → (∀ w, Matches w → ¬ w <+: cs.drop i) → Scanned cs (i + 1) spans →
      Scanned cs i spans
  /-- Else the longest match is a token, and the scan goes on right behind it. -/
  | take {i : Nat} {w : List Char} {spans : List Span} :
      LongestAt cs i w → Scanned cs (i + w.length) spans →
      Scanned cs i (⟨i, Token.classify (String.ofList w)⟩ :: spans)

theorem drop_add_length {cs w rest : List Char} {i : Nat} (h : cs.drop i = w ++ rest) :
    cs.drop (i + w.length) = rest := by
  rw [← List.drop_drop, h, List.drop_left]

@[simp] theorem text_classify (text : String) : (Token.classify text).text = text := by
  unfold Token.classify
  split
  · rfl
  · split
    · rfl
    · split <;> rfl

theorem classify_lexeme (d : Lexeme) : Token.classify d.text = ⟨.number, d.text⟩ := by
  have hread : (readFloat? d.text).isSome = true := by
    rw [d.text_eq, readFloat?_literal]
    rfl
  have hne : ∀ other : String, (readFloat? other).isSome = false → (d.text == other) = false := by
    intro other hother
    rw [beq_eq_false_iff_ne]
    rintro rfl
    rw [hread] at hother
    cases hother
  have hopening := hne "(" (by decide +kernel)
  have hclosing := hne ")" (by decide +kernel)
  rw [Token.classify, ofText?_eq_none_of_readFloat? hread, hopening, hclosing]
  rfl

theorem symbol_eq_classify {c : Char} (h : isSymbol c = true) :
    Pending.symbol c = [Token.classify (String.ofList [c])] := by
  rcases isSymbol_iff.mp h with rfl | rfl | rfl | rfl | rfl | rfl <;> decide +kernel

theorem kind_classify_symbol {c : Char} (h : isSymbol c = true) :
    (Token.classify (String.ofList [c])).kind ≠ .number := by
  rcases isSymbol_iff.mp h with rfl | rfl | rfl | rfl | rfl | rfl <;> decide +kernel

theorem symbol_eq_nil {c : Char} (h : isSymbol c = false) : Pending.symbol c = [] := by
  simp only [isSymbol, Bool.or_eq_false_iff] at h
  simp [Pending.symbol, h]

namespace Scanned

variable {cs rest : List Char} {i : Nat} {spans : List Span}

theorem number {d : Lexeme} (h : cs.drop i = d.chars ++ rest)
    (hdigit : rest.head?.any Char.isDigit = false)
    (hpoint : d.pointed = false → ∀ after, rest = '.' :: after →
      after.head?.any Char.isDigit = false)
    (hrest : Scanned cs (i + d.chars.length) spans) :
    Scanned cs i (⟨i, ⟨.number, d.text⟩⟩ :: spans) := by
  rw [← classify_lexeme]
  refine .take ⟨.numeral d, ⟨rest, h.symm⟩, fun w' hw' hhere => ?_⟩ hrest
  rw [h] at hhere
  cases hw' with
  | numeral e => exact Lexeme.length_le_of_prefix hdigit hpoint hhere
  | symbol hc => exact List.length_pos_of_ne_nil d.chars_ne_nil

theorem symbol {c : Char} (hc : isSymbol c = true) (h : cs.drop i = c :: rest)
    (hrest : Scanned cs (i + 1) spans) :
    Scanned cs i (⟨i, .classify (String.ofList [c])⟩ :: spans) := by
  refine .take ⟨.symbol hc, ⟨rest, h.symm⟩, fun w' hw' hhere => ?_⟩ hrest
  cases hw' with
  | symbol hc' => exact Nat.le_refl _
  | numeral e =>
    obtain ⟨b, bs, hbs⟩ := List.exists_cons_of_ne_nil e.chars_ne_nil
    rw [h, hbs, List.cons_prefix_cons] at hhere
    obtain ⟨hdigit, hpoint⟩ := ends_of_isSymbol hc
    rcases e.digit_or_point b (by simp [hbs]) with hb | hb
    · rw [← hhere.1, hb] at hdigit
      cases hdigit
    · exact absurd (hhere.1.symm.trans hb) hpoint

theorem skipped {c : Char} (hc : inToken c rest.head? = false) (h : cs.drop i = c :: rest)
    (hrest : Scanned cs (i + 1) spans) : Scanned cs i spans := by
  refine .skip ?_ (fun w hw hhere => ?_) hrest
  · by_contra hend
    rw [List.drop_eq_nil_of_le (by omega)] at h
    cases h
  · rw [h] at hhere
    have := hw.inToken hhere (List.length_pos_of_ne_nil hw.ne_nil) rfl
    rw [List.getElem?_cons_succ, ← List.head?_eq_getElem?, hc] at this
    cases this

end Scanned

/-! ### The lexer scans -/

namespace Pending

/-- The characters that have been read and not yet decided on. -/
def behind : Pending → List Char
  | nothing => []
  | whole digits => digits.toList
  | point digits => digits.toList ++ ['.']
  | fraction text => text.toList

theorem behind_addDigit (pending : Pending) (c : Char) :
    (pending.addDigit c).behind = pending.behind ++ [c] := by
  cases pending <;> simp [addDigit, behind]

/-- What is pending and can not go on is scanned as it is flushed. -/
theorem Sound.scanned_flush {pending : Pending} (hsound : pending.Sound) {cs rest : List Char}
    {i : Nat} {spans : List Span} (h : cs.drop i = pending.behind ++ rest)
    (hdigit : rest.head?.any Char.isDigit = false)
    (hpoint : ∀ digits, pending = whole digits → rest.head? ≠ some '.')
    (hrest : Scanned cs (i + pending.behind.length) spans) :
    ∃ flushed, Scanned cs i flushed ∧
      flushed.map Span.token = pending.flush ++ spans.map Span.token := by
  cases pending with
  | nothing => exact ⟨spans, hrest, rfl⟩
  | whole digits =>
    obtain ⟨ds, hne, hds, rfl⟩ := hsound
    have hbehind : behind (whole (String.ofList ds)) = (Lexeme.row false ds hds hne).chars := by
      simp [behind, Lexeme.chars_row]
    have hfirst := hpoint _ rfl
    rw [hbehind] at h hrest
    refine ⟨_, Scanned.number h hdigit (fun _ after hafter => ?_) hrest, ?_⟩
    · rw [hafter] at hfirst
      exact absurd rfl hfirst
    · simp [Pending.flush, Lexeme.text, Lexeme.chars_row]
  | point digits =>
    obtain ⟨ds, hds, rfl⟩ := hsound
    simp only [behind, String.toList_ofList, List.append_assoc, List.singleton_append] at h
    have hpassed : Scanned cs (i + ds.length) spans := by
      refine Scanned.skipped ?_ (drop_add_length h) ?_
      · rw [inToken_point, hdigit]
      · simpa [behind, Nat.add_assoc] using hrest
    by_cases hne : ds = []
    · subst hne
      exact ⟨spans, hpassed, rfl⟩
    · rw [← Lexeme.chars_row hds hne] at h hpassed
      refine ⟨_, Scanned.number h rfl (fun _ after hafter => ?_) hpassed, ?_⟩
      · rwa [← (List.cons.inj hafter).2]
      · simp [Pending.flush, hne, Lexeme.text, Lexeme.chars_row]
  | fraction text =>
    obtain ⟨d, hpointed, rfl⟩ := hsound
    have hbehind : behind (fraction d.text) = d.chars := by
      simp [behind, Lexeme.text]
    rw [hbehind] at h hrest
    refine ⟨_, Scanned.number h hdigit (fun hnot => ?_) hrest, rfl⟩
    rw [hpointed] at hnot
    cases hnot

/-- **The lexer scans** what is pending and what follows. -/
theorem Sound.exists_scanned {pending : Pending} (hsound : pending.Sound) {cs rest : List Char}
    {i : Nat} (h : cs.drop i = pending.behind ++ rest) :
    ∃ spans, Scanned cs i spans ∧ spans.map Span.token = pending.scan rest := by
  induction rest generalizing pending i with
  | nil =>
    have hend : Scanned cs (i + pending.behind.length) [] :=
      .done (List.drop_eq_nil_iff.mp (drop_add_length h))
    obtain ⟨spans, hspans, htokens⟩ := hsound.scanned_flush h rfl (fun _ _ => nofun) hend
    exact ⟨spans, hspans, by simpa [Pending.scan] using htokens⟩
  | cons c rest ih =>
    have hdrop := drop_add_length h
    by_cases hdigit : c.isDigit = true
    · rw [scan_digit hdigit]
      exact ih (hsound.addDigit hdigit) (by rw [h, behind_addDigit]; simp)
    · rw [Bool.not_eq_true] at hdigit
      by_cases hpoint : c = '.'
      · subst hpoint
        by_cases hwhole : ∃ digits, pending = whole digits
        · obtain ⟨digits, rfl⟩ := hwhole
          rw [scan_point_whole]
          obtain ⟨ds, -, hds, rfl⟩ := hsound
          have hafter : (point (String.ofList ds)).Sound := ⟨ds, hds, rfl⟩
          exact ih hafter (by rw [h]; simp [behind])
        · have hanew : ∀ digits, pending ≠ whole digits := fun digits heq => hwhole ⟨digits, heq⟩
          have hafter : (point "").Sound := ⟨[], by simp, rfl⟩
          obtain ⟨spans, hspans, htokens⟩ := ih hafter hdrop
          rw [scan_point_anew hanew, ← htokens]
          exact hsound.scanned_flush h rfl (fun digits heq => absurd heq (hanew digits)) hspans
      · have hends : Ends c := ⟨hdigit, hpoint⟩
        have hnothing : nothing.Sound := trivial
        have hnext : cs.drop (i + pending.behind.length + 1) = nothing.behind ++ rest :=
          drop_add_length (w := [c]) hdrop
        obtain ⟨spans, hspans, htokens⟩ := ih hnothing hnext
        obtain ⟨spans', hspans', htokens'⟩ : ∃ spans',
            Scanned cs (i + pending.behind.length) spans' ∧
              spans'.map Span.token = symbol c ++ nothing.scan rest := by
          cases hsymbol : isSymbol c with
          | true =>
            refine ⟨_, Scanned.symbol hsymbol hdrop hspans, ?_⟩
            rw [symbol_eq_classify hsymbol, List.map_cons, htokens]
            rfl
          | false =>
            refine ⟨spans, Scanned.skipped ?_ hdrop hspans, ?_⟩
            · rw [inToken_of_ends hends, hsymbol]
            · rw [symbol_eq_nil hsymbol, htokens]
              rfl
        rw [scan_ends hends, scan_cons_ends hends, ← htokens']
        refine hsound.scanned_flush h ?_ (fun _ _ hfirst => ?_) hspans'
        · rw [List.head?_cons, Option.any_some, hdigit]
        · exact hpoint (Option.some.inj hfirst)

end Pending

/-! ### What a scan holds -/

namespace Scanned

variable {cs : List Char} {i : Nat} {spans : List Span}

theorem le_start (h : Scanned cs i spans) : ∀ s ∈ spans, i ≤ s.start := by
  induction h with
  | done _ => intro s hs; cases hs
  | skip _ _ _ ih => exact fun s hs => Nat.le_of_succ_le (ih s hs)
  | take _ _ ih =>
    intro s hs
    rcases List.mem_cons.mp hs with rfl | hs
    · exact Nat.le_refl _
    · exact Nat.le_trans (Nat.le_add_right _ _) (ih s hs)

theorem longestAt (h : Scanned cs i spans) :
    ∀ s ∈ spans, LongestAt cs s.start s.token.text.toList := by
  induction h with
  | done _ => intro s hs; cases hs
  | skip _ _ _ ih => exact ih
  | take hw _ ih =>
    intro s hs
    rcases List.mem_cons.mp hs with rfl | hs
    · simpa using hw
    · exact ih s hs

theorem eq_classify (h : Scanned cs i spans) :
    ∀ s ∈ spans, s.token = .classify s.token.text := by
  induction h with
  | done _ => intro s hs; cases hs
  | skip _ _ _ ih => exact ih
  | take _ _ ih =>
    intro s hs
    rcases List.mem_cons.mp hs with rfl | hs
    · rw [text_classify]
    · exact ih s hs

/-- The tokens stand in the order of the text and share no character. -/
theorem ordered (h : Scanned cs i spans) : spans.Pairwise fun s s' => s.stop ≤ s'.start := by
  induction h with
  | done _ => exact .nil
  | skip _ _ _ ih => exact ih
  | take _ hrest ih =>
    refine List.pairwise_cons.mpr ⟨fun s' hs' => ?_, ih⟩
    simpa [Span.stop] using hrest.le_start s' hs'

/-- **Which characters are part of a token.** -/
theorem covered (h : Scanned cs i spans) :
    ∀ j, i ≤ j → ∀ c, cs[j]? = some c →
      ((∃ s ∈ spans, s.Holds j) ↔ inToken c cs[j + 1]? = true) := by
  induction h with
  | done hend =>
    intro j hj c hc
    rw [List.getElem?_eq_none (by omega)] at hc
    cases hc
  | @skip i spans hi hnone hrest ih =>
    intro j hj c hc
    obtain rfl | hj := Nat.eq_or_lt_of_le hj
    · -- nothing begins here, and what is found later begins behind
      constructor
      · rintro ⟨s, hs, hholds⟩
        have := hrest.le_start s hs
        have := hholds.1
        omega
      · intro hin
        have hdrop : cs.drop i = c :: cs.drop (i + 1) := by
          obtain ⟨_, rfl⟩ := List.getElem?_eq_some_iff.mp hc
          exact List.drop_eq_getElem_cons hi
        rw [← List.head?_drop] at hin
        obtain ⟨w, hw, hhere⟩ := exists_matches hin
        rw [← hdrop] at hhere
        exact absurd hhere (hnone w hw)
    · exact ih j hj c hc
  | @take i w spans hw hrest ih =>
    intro j hj c hc
    by_cases hin : j < i + w.length
    · -- the match holds all of its characters
      have hholds : Span.Holds ⟨i, .classify (String.ofList w)⟩ j := ⟨hj, by simpa [Span.stop]⟩
      have hpart : inToken c cs[j + 1]? = true := by
        have hplace : (cs.drop i)[j - i]? = some c := by
          rw [List.getElem?_drop, Nat.add_sub_cancel' hj, hc]
        have := hw.isMatch.inToken hw.here (by omega) hplace
        rwa [List.getElem?_drop, Nat.add_succ, Nat.add_sub_cancel' hj] at this
      exact ⟨fun _ => hpart, fun _ => ⟨_, by simp, hholds⟩⟩
    · rw [← ih j (by omega) c hc]
      have hnot : ¬ Span.Holds ⟨i, .classify (String.ofList w)⟩ j := by
        rintro ⟨-, hstop⟩
        exact hin (by simpa [Span.stop] using hstop)
      simp [hnot]

/-- No token goes beyond the end of the text. -/
theorem lt_length_of_holds (h : Scanned cs i spans) {s : Span} (hs : s ∈ spans) {j : Nat}
    (hholds : s.Holds j) : j < cs.length := by
  have hlength := (h.longestAt s hs).here.length_le
  obtain ⟨hstart, hstop⟩ := hholds
  rw [Span.stop, ← String.length_toList] at hstop
  rw [List.length_drop] at hlength
  omega

/-- No character is part of two tokens. -/
theorem eq_of_holds (h : Scanned cs i spans) {s s' : Span} (hs : s ∈ spans) (hs' : s' ∈ spans)
    {j : Nat} (hholds : s.Holds j) (hholds' : s'.Holds j) : s = s' := by
  by_contra hne
  have hapart : spans.Pairwise fun s s' => ¬ (s.Holds j ∧ s'.Holds j) := by
    refine h.ordered.imp fun {a b} hab hboth => ?_
    obtain ⟨⟨-, hstop⟩, hstart, -⟩ := hboth
    omega
  have hsymm : Std.Symm fun s s' : Span => ¬ (s.Holds j ∧ s'.Holds j) :=
    ⟨fun a b hab hboth => hab ⟨hboth.2, hboth.1⟩⟩
  exact hapart.forall hs hs' hne ⟨hholds, hholds'⟩

theorem numeral (h : Scanned cs i spans) {s : Span} (hs : s ∈ spans)
    (hkind : s.token.kind = .number) : ∃ d : Lexeme, s.token.text = d.text := by
  have hmatch := (h.longestAt s hs).isMatch
  have htoken := h.eq_classify s hs
  generalize hw : s.token.text.toList = w at hmatch
  have htext : s.token.text = String.ofList w := by
    rw [← hw, String.ofList_toList]
  cases hmatch with
  | numeral d => exact ⟨d, htext⟩
  | symbol hsymbol =>
    rw [htoken, htext] at hkind
    exact absurd hkind (kind_classify_symbol hsymbol)

end Scanned

/-! ### Whole texts -/

/-- Tokens at their places, as a text is cut into them. -/
structure CutsInto (cs : List Char) (spans : List Span) : Prop where
  /-- They are what a scan from the start finds. -/
  scanned : Scanned cs 0 spans
  /-- Each is the longest match at its place. -/
  longest : ∀ s ∈ spans, LongestAt cs s.start s.token.text.toList
  /-- A number is written as a numeral. -/
  numeral : ∀ s ∈ spans, s.token.kind = .number → ∃ d : Lexeme, s.token.text = d.text
  /-- The text of a token tells its kind. -/
  classified : ∀ s ∈ spans, s.token = .classify s.token.text
  /-- They stand in the order of the text. -/
  ordered : spans.Pairwise fun s s' => s.stop ≤ s'.start
  /-- Each digit, each symbol and each point before a digit is part of one token. -/
  held_once : ∀ i c, cs[i]? = some c → inToken c cs[i + 1]? = true →
    ∃! s, s ∈ spans ∧ s.Holds i
  /-- Nothing else is part of any. -/
  held_only : ∀ s ∈ spans, ∀ i, s.Holds i → ∃ c, cs[i]? = some c ∧ inToken c cs[i + 1]? = true
  /-- Their texts are the text without all else. -/
  texts : spans.flatMap (·.token.text.toList) = held cs

theorem exists_cutsInto (cs : List Char) :
    ∃ spans, CutsInto cs spans ∧ spans.map Span.token = Pending.nothing.scan cs := by
  have hnothing : Pending.nothing.Sound := trivial
  have hstart : cs.drop 0 = Pending.nothing.behind ++ cs := rfl
  obtain ⟨spans, hscanned, htokens⟩ := hnothing.exists_scanned hstart
  refine ⟨spans, ⟨hscanned, hscanned.longestAt, fun s hs => hscanned.numeral hs,
    hscanned.eq_classify, hscanned.ordered, ?_, ?_, ?_⟩, htokens⟩
  · intro i c hc hin
    obtain ⟨s, hs, hholds⟩ := (hscanned.covered i (Nat.zero_le i) c hc).mpr hin
    exact ⟨s, ⟨hs, hholds⟩, fun s' hs' => hscanned.eq_of_holds hs'.1 hs hs'.2 hholds⟩
  · intro s hs i hholds
    have hlt := hscanned.lt_length_of_holds hs hholds
    have hc := List.getElem?_eq_getElem hlt
    exact ⟨_, hc, (hscanned.covered i (Nat.zero_le i) _ hc).mp ⟨s, hs, hholds⟩⟩
  · have hheld := Pending.nothing.flatMap_text_scan cs
    rw [← htokens, List.flatMap_map] at hheld
    exact hheld

theorem CutsInto.eq_nil_iff {cs : List Char} {spans : List Span} (h : CutsInto cs spans) :
    spans = [] ↔ ∀ i c, cs[i]? = some c → inToken c cs[i + 1]? = false := by
  constructor
  · rintro rfl i c hc
    by_contra hin
    obtain ⟨s, ⟨hs, -⟩, -⟩ := h.held_once i c hc (Bool.eq_true_of_not_eq_false hin)
    cases hs
  · intro hnone
    refine List.eq_nil_iff_forall_not_mem.mpr fun s hs => ?_
    have hpos : 0 < s.token.text.length := by
      rw [← String.length_toList]
      exact List.length_pos_of_ne_nil (h.longest s hs).isMatch.ne_nil
    have hholds : s.Holds s.start := ⟨Nat.le_refl _, Nat.lt_add_of_pos_right hpos⟩
    obtain ⟨c, hc, hin⟩ := h.held_only s hs s.start hholds
    rw [hnone s.start c hc] at hin
    cases hin

/-- **The lexer cuts a text by longest matches and skips the rest.**  A text is no
    expression if and only if nothing of it is part of a token. -/
theorem tokens_are_longest_matches (text : String) :
    ∃ spans, CutsInto text.toList spans ∧
      tokenize text =
        (if spans.isEmpty then fail .invalidExpression else .ok (spans.map Span.token)) ∧
      String.join (spans.map (·.token.text)) = String.ofList (held text.toList) ∧
      ((∃ failure, tokenize text = .error failure) ↔
        ∀ i c, text.toList[i]? = some c → inToken c text.toList[i + 1]? = false) := by
  obtain ⟨spans, hcut, htokens⟩ := exists_cutsInto text.toList
  have hresult : tokenize text =
      if spans.isEmpty then fail .invalidExpression else .ok (spans.map Span.token) := by
    rw [tokenize, ← htokens]
    cases spans <;> rfl
  refine ⟨spans, hcut, hresult, ?_, ?_⟩
  · rw [← String.toList_inj, String.toList_join, List.flatMap_map, hcut.texts]
    simp
  · rw [← hcut.eq_nil_iff, hresult]
    cases spans with
    | nil => exact ⟨fun _ => rfl, fun _ => ⟨_, rfl⟩⟩
    | cons s spans =>
      constructor
      · rintro ⟨failure, h⟩
        cases h
      · intro h
        cases h

/-- A second point ends a number and begins the next one. -/
example : tokenize "1.2.3..4" =
    .ok [⟨.number, "1.2"⟩, ⟨.number, ".3"⟩, ⟨.number, ".4"⟩] := by decide +kernel

end Reckoner
