/-
  Reckoner/Proofs/Nearest.lean
  ============================
  **The nearest double.**  An operation that rounds its exact result once gives a
  double that no finite double is nearer to that result than, and if another is as
  near, its significand is even (`Nearest`).  It compares well with all of them: one
  on the same grid or on a coarser one is an integer in its units, and one on a finer
  grid has a smaller exponent, so it is smaller by far (`Rounded.closest`).

  The other thing that may happen is that the result is infinite, and then the exact
  result is large (`RoundsTo.double`).  Where that begins is the midpoint above the
  largest finite double, from which on there is no significand left to round to
  (`RoundsTo.pack`).

  An integer is rounded like any other number, so the double that it is taken for is
  nearest to it (`nearest_ofInt`).
-/
import Reckoner.Proofs.CorrectRounding

namespace Reckoner.Number

open Float.Model Float.Model.UnpackedFloat

/-! ### The nearest double -/

/-- The significand of an unpacked number, zero for what has none. -/
def unpackedSignificand : UnpackedFloat → Nat
  | .finite _ m _ _ => m
  | _ => 0

/-- The significand of a finite double. -/
def significand (x : Float) : Nat := unpackedSignificand x.toModel.unpack

/-- `x` is the finite double nearest to `q`, the one with the even significand if
    another is as near. -/
structure Nearest (q : ℚ) (x : Float) : Prop where
  finite : x.isFinite = true
  closest : ∀ y : Float, y.isFinite = true → |q - valueOf x| ≤ |q - valueOf y|
  even : ∀ y : Float, y.isFinite = true → |q - valueOf x| = |q - valueOf y| →
    valueOf x ≠ valueOf y → significand x % 2 = 0

/-! ### Numbers on other grids -/

/-- A number below an integer is farther than the nearest integer of what is above. -/
theorem NearestInteger.closest_of_lt {w c : ℚ} {n : Nat} (h : NearestInteger w n) {b : Nat}
    (hw : (b : ℚ) ≤ w) (hc : c < b) : |w - n| < |w - c| := by
  have hb := (h.closest b).1
  rw [Int.cast_natCast, abs_of_nonneg (sub_nonneg.mpr hw)] at hb
  calc |w - n| ≤ w - b := hb
    _ < w - c := by linarith
    _ ≤ |w - c| := le_abs_self _

/-- **No number with 53 bits is nearer than the rounded one.** -/
theorem Rounded.closest {v : ℚ} {n : Nat} {t : Int} (h : Rounded v n t) {j e : Int}
    (hj : |j| < 2 ^ 53) (he : -1074 ≤ e) :
    |v - n * 2 ^ t| ≤ |v - j * 2 ^ e| ∧
      (|v - n * 2 ^ t| = |v - j * 2 ^ e| → (n : ℚ) * 2 ^ t ≠ j * 2 ^ e → n % 2 = 0) := by
  have hunit : (0 : ℚ) < 2 ^ t := by positivity
  -- everything in units of `2 ^ t`
  have hscale : ∀ c : ℚ, |v - c * 2 ^ t| = |v / 2 ^ t - c| * 2 ^ t := by
    intro c
    rw [← abs_of_pos hunit, ← abs_mul, abs_of_pos hunit, sub_mul, div_mul_cancel₀ _ hunit.ne']
  have hother : (j : ℚ) * 2 ^ e = j * 2 ^ (e - t) * 2 ^ t := by
    rw [mul_assoc, ← zpow_add₀ two_ne_zero, sub_add_cancel]
  rw [hother, hscale, hscale]
  rcases le_or_gt t e with hcoarse | hfine
  · obtain ⟨places, hplaces⟩ : ∃ places : Nat, e - t = places := ⟨(e - t).toNat, by omega⟩
    have hinteger : (j : ℚ) * 2 ^ (e - t) = (j * 2 ^ places : ℤ) := by
      rw [hplaces, zpow_natCast]
      push_cast
      rfl
    obtain ⟨hle, htie⟩ := h.nearest.closest (j * 2 ^ places)
    rw [hinteger]
    refine ⟨mul_le_mul_of_nonneg_right hle hunit.le, fun hequal hne => ?_⟩
    refine htie (mul_right_cancel₀ hunit.ne' hequal) fun heq => hne ?_
    rw [← heq, Int.cast_natCast]
  · have hfull : (2 : ℚ) ^ 52 ≤ v / 2 ^ t := h.full.resolve_right (by omega)
    have hsmall : (j : ℚ) * 2 ^ (e - t) < (2 ^ 52 : Nat) := by
      have hj' : (j : ℚ) < 2 ^ 53 := by exact_mod_cast (abs_lt.mp hj).2
      have hhalf : (2 : ℚ) ^ (e - t) ≤ 2 ^ (-1 : ℤ) :=
        zpow_le_zpow_right₀ (by norm_num) (by omega)
      have hpos : (0 : ℚ) < 2 ^ (e - t) := by positivity
      calc (j : ℚ) * 2 ^ (e - t) < 2 ^ 53 * 2 ^ (e - t) := by gcongr
        _ ≤ 2 ^ 53 * 2 ^ (-1 : ℤ) := by gcongr
        _ = (2 ^ 52 : Nat) := by norm_num
    have hlt := h.nearest.closest_of_lt (by exact_mod_cast hfull) hsmall
    have hscaled := mul_lt_mul_of_pos_right hlt hunit
    exact ⟨hscaled.le, fun hequal _ => absurd hequal hscaled.ne⟩

theorem abs_apply (s : Sign) (j : ℤ) : |s.apply j| = |j| := by
  cases s
  · exact abs_neg j
  · rfl

/-- Every finite double is an integer of 53 bits on some grid. -/
theorem IsDouble.exists_scaled {u : UnpackedFloat} (h : IsDouble u) :
    ∃ j e : Int, unpackedValue u = j * 2 ^ e ∧ |j| < 2 ^ 53 ∧ -1074 ≤ e := by
  cases h with
  | zero s => exact ⟨0, 0, by simp, by norm_num, by norm_num⟩
  | @finite s m e h hm =>
    refine ⟨s.apply m, e, ?_, ?_, h.least⟩
    · rw [cast_apply, signed_mul]
      rfl
    · rw [abs_apply, Nat.abs_cast]
      exact_mod_cast h.bits

/-! ### Doubles -/

theorem abs_signed_sub (s : Sign) (v w : ℚ) : |signed s v - w| = |v - signed s w| := by
  cases s
  · show |-v - w| = |v - -w|
    rw [← abs_neg, neg_sub, sub_neg_eq_add, sub_neg_eq_add, add_comm]
  · rfl

theorem signed_apply (s : Sign) (j : ℤ) (w : ℚ) : signed s (j * w) = (s.apply j : ℤ) * w := by
  rw [cast_apply, signed_mul]

/-- Before it is packed a rounded number is finite, however large it is. -/
theorem RoundsTo.isFinite {q : ℚ} {u : UnpackedFloat} (h : RoundsTo q u) : u.isFinite = true := by
  obtain ⟨s, v, n, t, -, -, rfl⟩ := h
  rw [normalForm]
  split
  · rfl
  · split <;> rfl

/-- **A finite double that is `q` rounded is nearest to `q`.** -/
theorem RoundsTo.nearest {q : ℚ} {x : Float} (h : RoundsTo q x.toModel.unpack) : Nearest q x := by
  have hfinite : x.isFinite = true := h.isFinite
  obtain ⟨s, v, n, t, rfl, hrounded, hunpack⟩ := h
  have hvalue : valueOf x = signed s (n * 2 ^ t) := by
    rw [valueOf, hunpack, unpackedValue_normalForm]
  have hsignificand : n % 2 = 0 → significand x % 2 = 0 := by
    intro heven
    rw [significand, hunpack, normalForm]
    by_cases hzero : n = 0
    · rw [dif_pos hzero]
      rfl
    · by_cases hcarry : n = 2 ^ 53
      · rw [dif_neg hzero, if_pos hcarry]
        show 2 ^ 52 % 2 = 0
        decide
      · rw [dif_neg hzero, if_neg hcarry]
        exact heven
  have hclosest : ∀ y : Float, y.isFinite = true →
      |signed s v - valueOf x| ≤ |signed s v - valueOf y| ∧
        (|signed s v - valueOf x| = |signed s v - valueOf y| → valueOf x ≠ valueOf y →
          n % 2 = 0) := by
    intro y hy
    obtain ⟨j, e, hj, hbits, hleast⟩ := (isDouble_unpack hy).exists_scaled
    have hother : signed s (valueOf y) = (s.apply j : ℤ) * 2 ^ e := by
      rw [valueOf, hj, signed_apply]
    have hself : signed s (valueOf x) = n * 2 ^ t := by
      rw [hvalue, signed_signed]
    obtain ⟨hle, htie⟩ := hrounded.closest (j := s.apply j) (by rwa [abs_apply]) hleast
    rw [abs_signed_sub, abs_signed_sub, hother, hself]
    refine ⟨hle, fun hequal hne => htie hequal fun heq => hne ?_⟩
    rw [← signed_signed s (valueOf x), ← signed_signed s (valueOf y), hself, hother, heq]
  exact ⟨hfinite, fun y hy => (hclosest y hy).1,
    fun y hy hequal hne => hsignificand ((hclosest y hy).2 hequal hne)⟩

theorem two_zpow_mul_two_le {k t : Int} (h : k < t) : (2 : ℚ) ^ k * 2 ≤ 2 ^ t := by
  rw [← zpow_add_one₀ two_ne_zero]
  exact zpow_le_zpow_right₀ (by norm_num) (by omega)

/-- **A rounded magnitude is below `2 ^ 53` units if and only if it was below the midpoint**
    between them and the significand before, which is odd. -/
theorem Rounded.lt_iff {v : ℚ} {n : Nat} {t : Int} (h : Rounded v n t) {k : Int}
    (hk : -1074 ≤ k) : (n : ℚ) * 2 ^ t < 2 ^ 53 * 2 ^ k ↔ v < (2 ^ 53 - 1 / 2) * 2 ^ k := by
  have hunit : (0 : ℚ) < 2 ^ t := by positivity
  have hunits : (0 : ℚ) < 2 ^ k := by positivity
  rcases Int.lt_trichotomy t k with hfine | rfl | hcoarse
  · -- on a finer grid both stay below half of them
    have hhalf := two_zpow_mul_two_le hfine
    have hn : (n : ℚ) ≤ 2 ^ 53 := by exact_mod_cast h.le
    have hbelow := h.below
    rw [div_lt_iff₀ hunit] at hbelow
    refine iff_of_true ?_ ?_
    · calc (n : ℚ) * 2 ^ t ≤ 2 ^ 53 * 2 ^ t := by gcongr
        _ < 2 ^ 53 * 2 ^ k := by linarith
    · calc v < 2 ^ 53 * 2 ^ t := hbelow
        _ ≤ (2 ^ 53 - 1 / 2) * 2 ^ k := by linarith
  · -- `n` is the integer nearest to the number of units
    rw [mul_lt_mul_iff_left₀ hunit, ← div_lt_iff₀ hunit]
    obtain ⟨hlow, hhigh⟩ := abs_le.mp h.nearest.close
    constructor
    · intro hn
      have hlast : n + 1 ≤ 2 ^ 53 := Nat.succ_le_of_lt (by exact_mod_cast hn)
      have hcast : (n : ℚ) + 1 ≤ 2 ^ 53 := by exact_mod_cast hlast
      refine lt_of_le_of_ne (by linarith) fun hmidpoint => ?_
      have htie : |v / 2 ^ t - n| = 1 / 2 := by
        refine le_antisymm h.nearest.close (le_trans ?_ (le_abs_self _))
        linarith
      have heven := h.nearest.even htie
      have hodd : (n : ℚ) = (2 ^ 53 - 1 : Nat) := by
        push_cast
        linarith
      have hodd' : n = 2 ^ 53 - 1 := by exact_mod_cast hodd
      omega
    · intro hv
      linarith
  · -- on a coarser grid neither is less
    have htwo := two_zpow_mul_two_le hcoarse
    have hfull := h.full.resolve_right (by omega)
    have hn : (2 : ℚ) ^ 52 ≤ n := by
      exact_mod_cast h.nearest.le (b := 2 ^ 52) (by exact_mod_cast hfull)
    rw [le_div_iff₀ hunit] at hfull
    refine iff_of_false (not_lt.mpr ?_) (not_lt.mpr ?_)
    · calc (2 : ℚ) ^ 53 * 2 ^ k = 2 ^ 52 * ((2 : ℚ) ^ k * 2) := by ring
        _ ≤ (n : ℚ) * 2 ^ t := by gcongr
    · calc (2 ^ 53 - 1 / 2) * (2 : ℚ) ^ k ≤ 2 ^ 52 * ((2 : ℚ) ^ k * 2) := by linarith
        _ ≤ 2 ^ 52 * 2 ^ t := by gcongr
        _ ≤ v := hfull

/-- The midpoint between the largest finite double and what would come after it. -/
def overflowPoint : ℚ := (2 ^ 53 - 1 / 2) * 2 ^ (971 : ℤ)

/-- **What becomes of a rounded number when it is packed**: below the overflow point it
    is kept, and from there on it becomes infinite. -/
theorem RoundsTo.pack {q : ℚ} {u : UnpackedFloat} (h : RoundsTo q u) :
    |q| < overflowPoint ∧ (Float.Model.pack u).unpack = u ∨
      overflowPoint ≤ |q| ∧ ∃ s, (Float.Model.pack u).unpack = .infinity s := by
  obtain ⟨s, v, n, t, rfl, hrounded, rfl⟩ := h
  rw [abs_signed, abs_of_nonneg hrounded.nonneg]
  have hlimit : (n : ℚ) * 2 ^ t < 2 ^ 53 * 2 ^ (971 : ℤ) ↔ v < overflowPoint :=
    hrounded.lt_iff (by norm_num)
  have hunit : (0 : ℚ) < 2 ^ t := by positivity
  rw [normalForm]
  split
  · next hzero =>
    refine Or.inl ⟨hlimit.mp ?_, by cases s <;> rfl⟩
    rw [hzero, Nat.cast_zero, zero_mul]
    positivity
  · split
    · next hcarry =>
      have hcarried : Full (2 ^ 52) := ⟨by decide, by decide⟩
      have hn : (n : ℚ) = 2 ^ 53 := by exact_mod_cast hcarry
      have hleast := hrounded.least
      rw [hn, mul_lt_mul_iff_right₀ (by norm_num), zpow_lt_zpow_iff_right₀ (by norm_num)] at hlimit
      rcases le_or_gt (t + 1) 971 with hfits | hexceeds
      · exact Or.inl ⟨hlimit.mp (by omega), Number.unpack_pack hcarried (by omega) hfits⟩
      · exact Or.inr ⟨not_lt.mp (mt hlimit.mpr (by omega)), s, unpack_pack_infinite hexceeds _⟩
    · next hcarry =>
      have hcanonical := hrounded.canonical hcarry
      rcases le_or_gt t 971 with hfits | hexceeds
      · refine Or.inl ⟨hlimit.mp ?_, unpack_pack_canonical hcanonical hfits _⟩
        have hn : (n : ℚ) < 2 ^ 53 := by exact_mod_cast hcanonical.bits
        have hpow : (2 : ℚ) ^ t ≤ 2 ^ (971 : ℤ) := zpow_le_zpow_right₀ (by norm_num) hfits
        calc (n : ℚ) * 2 ^ t < 2 ^ 53 * 2 ^ t := by gcongr
          _ ≤ 2 ^ 53 * 2 ^ (971 : ℤ) := by gcongr
      · refine Or.inr ⟨not_lt.mp (mt hlimit.mpr (not_lt.mpr ?_)), s,
          unpack_pack_infinite hexceeds _⟩
        have hn : (2 : ℚ) ^ 52 ≤ n := by
          exact_mod_cast hcanonical.full.resolve_right (by omega)
        have htwo := two_zpow_mul_two_le hexceeds
        calc (2 : ℚ) ^ 53 * 2 ^ (971 : ℤ) = 2 ^ 52 * ((2 : ℚ) ^ (971 : ℤ) * 2) := by ring
          _ ≤ (n : ℚ) * 2 ^ t := by gcongr

theorem pow_le_overflowPoint : (2 : ℚ) ^ 1023 ≤ overflowPoint := by
  have hpow : (2 : ℚ) ^ 1023 = 2 ^ 52 * 2 ^ (971 : ℤ) := by
    rw [← zpow_natCast, ← zpow_natCast, ← zpow_add₀ two_ne_zero]
    rfl
  have hunit : (0 : ℚ) < 2 ^ (971 : ℤ) := zpow_pos two_pos 971
  rw [hpow, overflowPoint, mul_le_mul_iff_left₀ hunit]
  norm_num

/-- **A double that comes of rounding `q`** is nearest to `q`, or it is infinite and
    `q` is large. -/
theorem RoundsTo.double {q : ℚ} {u : UnpackedFloat} (h : RoundsTo q u) {x : Float}
    (hx : x.toModel = Float.Model.pack u) :
    Nearest q x ∨ x.isInf = true ∧ 2 ^ 1023 ≤ |q| := by
  rcases h.pack with ⟨-, hkept⟩ | ⟨hlarge, s, hinfinite⟩
  · left
    apply RoundsTo.nearest
    rw [hx, hkept]
    exact h
  · right
    refine ⟨?_, pow_le_overflowPoint.trans hlarge⟩
    show x.toModel.unpack.isInf = true
    rw [hx, hinfinite]
    rfl

/-- **Whether a rounded number is finite** is told by the overflow point. -/
theorem RoundsTo.isFinite_iff {q : ℚ} {u : UnpackedFloat} (h : RoundsTo q u) {x : Float}
    (hx : x.toModel = Float.Model.pack u) : x.isFinite = true ↔ |q| < overflowPoint := by
  change x.toModel.unpack.isFinite = true ↔ _
  rw [hx]
  rcases h.pack with ⟨hsmall, hkept⟩ | ⟨hlarge, s, hinfinite⟩
  · refine iff_of_true ?_ hsmall
    rw [hkept]
    exact h.isFinite
  · refine iff_of_false ?_ (not_lt.mpr hlarge)
    rw [hinfinite]
    exact Bool.false_ne_true

theorem RoundsTo.nearest_of_isFinite {q : ℚ} {u : UnpackedFloat} (h : RoundsTo q u) {x : Float}
    (hx : x.toModel = Float.Model.pack u) (hfinite : x.isFinite = true) : Nearest q x := by
  rcases h.double hx with hnearest | ⟨hinfinite, -⟩
  · exact hnearest
  · rw [not_isInf hfinite] at hinfinite
    cases hinfinite

/-! ### Integers -/

theorem valueOf_neg (x : Float) : valueOf (-x) = -valueOf x := by
  rw [valueOf, unpack_neg, unpackedValue_neg, valueOf]

theorem significand_neg (x : Float) : significand (-x) = significand x := by
  rw [significand, unpack_neg, significand]
  cases x.toModel.unpack <;> rfl

theorem Nearest.neg {q : ℚ} {x : Float} (h : Nearest q x) : Nearest (-q) (-x) := by
  have habs : ∀ y, |-q - valueOf y| = |q - valueOf (-y)| := by
    intro y
    rw [valueOf_neg, ← abs_neg]
    congr 1
    ring
  have hself : |-q - valueOf (-x)| = |q - valueOf x| := by
    rw [habs, valueOf_neg, valueOf_neg, neg_neg]
  refine ⟨?_, ?_, ?_⟩
  · rw [isFinite_neg]
    exact h.finite
  · intro y hy
    rw [hself, habs]
    exact h.closest (-y) (by rwa [isFinite_neg])
  · intro y hy htie hne
    rw [hself, habs] at htie
    rw [significand_neg]
    refine h.even (-y) (by rwa [isFinite_neg]) htie fun heq => hne ?_
    rw [valueOf_neg, heq, valueOf_neg, neg_neg]

/-- **An integer is taken for the double nearest to it**, if that is finite. -/
theorem nearest_ofInt {i : Int} (h : (ofInt i).isFinite = true) : Nearest i (ofInt i) := by
  have hmagnitude : (Decimal.mk i.natAbs 0).toFloat.isFinite = true →
      Nearest i.natAbs (Decimal.mk i.natAbs 0).toFloat := by
    intro hfinite
    have hrounds := roundsTo_ofScientific i.natAbs (e := 0) (by decide)
    rw [zpow_zero, mul_one] at hrounds
    exact hrounds.nearest_of_isFinite rfl hfinite
  rw [ofInt] at h ⊢
  split
  · next hnegative =>
    rw [if_pos hnegative, isFinite_neg] at h
    have hi : (i : ℚ) = -(i.natAbs : ℚ) := by
      rw [Nat.cast_natAbs, abs_of_neg hnegative]
      push_cast
      ring
    rw [hi]
    exact (hmagnitude h).neg
  · next hpositive =>
    rw [if_neg hpositive] at h
    have hi : (i : ℚ) = (i.natAbs : ℚ) := by
      rw [Nat.cast_natAbs, abs_of_nonneg (not_lt.mp hpositive)]
    rw [hi]
    exact hmagnitude h

end Reckoner.Number
