/-
  Reckoner/Proofs/Rounding.lean
  =============================
  **What rounding gives.**  Rounding works on a significand with a note about the bits
  behind it.  The note says in which part of the next unit the exact number lies
  (`Lies`), and shifting keeps it true (`Represents.shiftRight`), so the significand
  that is left over at the end is the integer nearest to the number in units of the
  chosen exponent, the even one on a tie (`Rounded`).  The exponent is the least at
  which the number has no more than 53 bits before the point, but there is a least one
  for all.

  `RoundsTo` says this of an unpacked number of either sign.  It holds of what comes of
  any significand that has bits enough to be rounded at that exponent
  (`roundsTo_roundWithAccuracy`).
-/
import Reckoner.Proofs.ExactValue

namespace Reckoner.Number

open Float.Model Float.Model.UnpackedFloat

/-! ### Shifting -/

theorem shiftRight_succ (m : ExtendedMantissa) (n : Nat) : m >>> (n + 1) = (m >>> n).shiftRightOne :=
  rfl

theorem shiftRight_mantissa (m : ExtendedMantissa) (n : Nat) :
    (m >>> n).mantissa = m.mantissa / 2 ^ n := by
  induction n with
  | zero =>
    have hzero : m >>> 0 = m := rfl
    rw [hzero]
    simp
  | succ n ih =>
    rw [shiftRight_succ, ExtendedMantissa.shiftRightOne, ih, Nat.div_div_eq_div_mul, Nat.pow_succ]

/-- What is left of a number once all but 53 of its bits are shifted out. -/
theorem div_two_pow_lt {m places : Nat} (h : m.log2 ≤ 52 + places) : m / 2 ^ places < 2 ^ 53 := by
  have hlog : m < 2 ^ (53 + places) :=
    Nat.lt_of_lt_of_le Nat.lt_log2_self (Nat.pow_le_pow_right (by decide) (by omega))
  rwa [Nat.div_lt_iff_lt_mul (Nat.two_pow_pos places), ← Nat.pow_add]

theorem full_div_two_pow {m places : Nat} (h : m.log2 = 52 + places) : Full (m / 2 ^ places) := by
  have hne : m ≠ 0 := by
    rintro rfl
    rw [Nat.log2_zero] at h
    omega
  have hlow : 2 ^ (52 + places) ≤ m := by
    rw [← h]
    exact Nat.log2_self_le hne
  refine ⟨?_, div_two_pow_lt (Nat.le_of_eq h)⟩
  rwa [Nat.le_div_iff_mul_le (Nat.two_pow_pos places), ← Nat.pow_add]

/-! ### What the bits behind a significand say -/

/-- The place of a number in the unit that begins at `m`. -/
def Lies (m : Nat) (w : ℚ) : Accuracy → Prop
  | .exact => w = m
  | .inexact .lt => m < w ∧ w < m + 1 / 2
  | .inexact .eq => w = m + 1 / 2
  | .inexact .gt => m + 1 / 2 < w ∧ w < m + 1

/-- The number that a significand and its two bits stand for. -/
def Represents (em : ExtendedMantissa) (w : ℚ) : Prop := Lies em.mantissa w em.accuracy

theorem represents_ofMantissaAndAccuracy {m : Nat} {w : ℚ} {accuracy : Accuracy} :
    Represents (.ofMantissaAndAccuracy m accuracy) w ↔ Lies m w accuracy := by
  cases accuracy with
  | exact => rfl
  | inexact half => cases half <;> rfl

theorem Lies.bounds {m : Nat} {w : ℚ} {accuracy : Accuracy} (h : Lies m w accuracy) :
    (m : ℚ) ≤ w ∧ w < m + 1 := by
  cases accuracy with
  | exact =>
    obtain rfl : w = m := h
    exact ⟨le_refl _, by linarith⟩
  | inexact half =>
    cases half with
    | lt => exact ⟨le_of_lt h.1, by linarith [h.2]⟩
    | eq =>
      obtain rfl : w = m + 1 / 2 := h
      exact ⟨by linarith, by linarith⟩
    | gt => exact ⟨by linarith [h.1], h.2⟩

/-- The bit that is shifted out becomes the round bit, and what was behind it is
    gathered in the sticky bit. -/
theorem shiftRightOne_eq (m : Nat) (roundBit stickyBit : Bool) :
    (ExtendedMantissa.mk (2 * m) roundBit stickyBit).shiftRightOne =
        ⟨m, false, roundBit || stickyBit⟩ ∧
      (ExtendedMantissa.mk (2 * m + 1) roundBit stickyBit).shiftRightOne =
        ⟨m, true, roundBit || stickyBit⟩ := by
  have heven : (2 * m) / 2 = m ∧ (2 * m) % 2 = 0 := by omega
  have hodd : (2 * m + 1) / 2 = m ∧ (2 * m + 1) % 2 = 1 := by omega
  constructor
  · rw [ExtendedMantissa.shiftRightOne, heven.1, heven.2]
    rfl
  · rw [ExtendedMantissa.shiftRightOne, hodd.1, hodd.2]
    rfl

theorem Represents.shiftRightOne {em : ExtendedMantissa} {w : ℚ} (h : Represents em w) :
    Represents em.shiftRightOne (w / 2) := by
  obtain ⟨m, roundBit, stickyBit⟩ := em
  obtain ⟨half, rfl | rfl⟩ := Nat.even_or_odd' m
  · rw [(shiftRightOne_eq half roundBit stickyBit).1]
    cases roundBit <;> cases stickyBit <;>
      simp only [Represents, Lies, ExtendedMantissa.accuracy, Bool.or_self, Bool.or_true,
        Bool.or_false, Nat.cast_mul, Nat.cast_ofNat] at h ⊢
    · linarith
    · constructor <;> linarith
    · constructor <;> linarith
    · constructor <;> linarith
  · rw [(shiftRightOne_eq half roundBit stickyBit).2]
    cases roundBit <;> cases stickyBit <;>
      simp only [Represents, Lies, ExtendedMantissa.accuracy, Bool.or_self, Bool.or_true,
        Bool.or_false, Nat.cast_add, Nat.cast_mul, Nat.cast_ofNat, Nat.cast_one] at h ⊢
    · linarith
    · constructor <;> linarith
    · constructor <;> linarith
    · constructor <;> linarith

theorem Represents.shiftRight {em : ExtendedMantissa} {w : ℚ} (h : Represents em w) (n : Nat) :
    Represents (em >>> n) (w / 2 ^ n) := by
  induction n with
  | zero =>
    rw [pow_zero, div_one]
    exact h
  | succ n ih =>
    rw [shiftRight_succ, pow_succ, ← div_div]
    exact ih.shiftRightOne

/-! ### The nearest integer -/

/-- `n` is the integer nearest to `w`, the even one on a tie. -/
structure NearestInteger (w : ℚ) (n : Nat) : Prop where
  close : |w - n| ≤ 1 / 2
  even : |w - n| = 1 / 2 → n % 2 = 0

/-- **The bits behind a significand are enough to round it.** -/
theorem Lies.nearestInteger {m : Nat} {w : ℚ} {accuracy : Accuracy} (h : Lies m w accuracy) :
    NearestInteger w (accuracy.roundToNearestEven m) := by
  cases accuracy with
  | exact =>
    obtain rfl : w = m := h
    show NearestInteger m m
    constructor <;> norm_num
  | inexact half =>
    cases half with
    | lt =>
      have habs : |w - m| < 1 / 2 := abs_lt.mpr ⟨by linarith [h.1], by linarith [h.2]⟩
      exact ⟨le_of_lt habs, fun hhalf => absurd hhalf (ne_of_lt habs)⟩
    | eq =>
      obtain rfl : w = m + 1 / 2 := h
      rcases Nat.mod_two_eq_zero_or_one m with hbit | hbit
      · show NearestInteger _ (m + m % 2)
        rw [hbit]
        refine ⟨?_, fun _ => hbit⟩
        norm_num
      · show NearestInteger _ (m + m % 2)
        rw [hbit]
        refine ⟨?_, fun _ => by omega⟩
        push_cast
        rw [abs_le]
        constructor <;> linarith
    | gt =>
      have habs : |w - (m + 1 : Nat)| < 1 / 2 := by
        push_cast
        exact abs_lt.mpr ⟨by linarith [h.1], by linarith [h.2]⟩
      exact ⟨le_of_lt habs, fun hhalf => absurd hhalf (ne_of_lt habs)⟩

theorem NearestInteger.le {w : ℚ} {n b : Nat} (h : NearestInteger w n) (hw : (b : ℚ) ≤ w) :
    b ≤ n := by
  have hlow := (abs_le.mp h.close).2
  have hcast : (b : ℚ) < (n + 1 : Nat) := by
    push_cast
    linarith
  exact Nat.le_of_lt_succ (by exact_mod_cast hcast)

theorem NearestInteger.ge {w : ℚ} {n b : Nat} (h : NearestInteger w n) (hw : w ≤ b) : n ≤ b := by
  have hhigh := (abs_le.mp h.close).1
  have hcast : (n : ℚ) < (b + 1 : Nat) := by
    push_cast
    linarith
  exact Nat.le_of_lt_succ (by exact_mod_cast hcast)

/-- No other integer is nearer, and one that is as near leaves the even one. -/
theorem NearestInteger.closest {w : ℚ} {n : Nat} (h : NearestInteger w n) (i : ℤ) :
    |w - n| ≤ |w - i| ∧ (|w - n| = |w - i| → (n : ℤ) ≠ i → n % 2 = 0) := by
  by_cases hi : (n : ℤ) = i
  · subst hi
    exact ⟨le_refl _, fun _ hne => absurd rfl hne⟩
  · have hapart : (1 : ℚ) ≤ |(n : ℚ) - i| := by
      exact_mod_cast Int.one_le_abs (sub_ne_zero.mpr hi)
    have htriangle : |(n : ℚ) - i| ≤ |w - n| + |w - i| := by
      have := abs_sub_le (n : ℚ) w i
      rwa [abs_sub_comm (n : ℚ) w] at this
    have hclose := h.close
    refine ⟨by linarith, fun htie _ => h.even ?_⟩
    linarith

/-! ### Targets -/

/-- The exponent at which a number has 53 bits, or the least exponent there is. -/
theorem targetExponent_eq_max (m : Nat) (e : Int) :
    Format.binary64.targetExponent (totalExponent m e) = max (m.log2 + e - 52) (-1074) := by
  have hmin : Format.binary64.minExponent = -1074 := by decide
  have hbits : Format.binary64.mantissaBits = 53 := rfl
  rw [Format.targetExponent, totalExponent, hmin, hbits]
  omega

/-- A significand of at most 53 bits is already where it belongs. -/
theorem shiftToTargetExponent_short {m : Nat} (hm : m < 2 ^ 53) {e : Int} (he : -1074 ≤ e) :
    shiftToTargetExponent Format.binary64 m e .exact = (⟨m, false, false⟩, e) := by
  have hlog : m.log2 ≤ 52 := by
    by_cases hzero : m = 0
    · subst hzero
      decide
    · exact Nat.le_of_lt_succ ((Nat.log2_lt hzero).mpr hm)
  have hshift : (max (m.log2 + e - 52) (-1074) - e).toNat = 0 := by omega
  rw [shiftToTargetExponent, targetExponent_eq_max, shiftToExponent, hshift]
  simp only [Int.natCast_zero, Int.add_zero]
  rfl

/-- Rounding that carries into a new bit gives it up again. -/
theorem shiftToTargetExponent_carry {e : Int} (he : -1074 ≤ e) :
    shiftToTargetExponent Format.binary64 (2 ^ 53) e .exact = (⟨2 ^ 52, false, false⟩, e + 1) := by
  have hlog : (2 ^ 53).log2 = 53 := Nat.log2_two_pow
  have hshift : (max ((2 ^ 53).log2 + e - 52) (-1074) - e).toNat = 1 := by omega
  rw [shiftToTargetExponent, targetExponent_eq_max, shiftToExponent, hshift]
  rfl

/-! ### The rounded number -/

/-- A magnitude is rounded to `n * 2 ^ t`: the exponent leaves 53 bits before the point,
    or fewer if it is the least one, and `n` is the integer nearest to the rest. -/
structure Rounded (v : ℚ) (n : Nat) (t : Int) : Prop where
  nonneg : 0 ≤ v
  nearest : NearestInteger (v / 2 ^ t) n
  least : -1074 ≤ t
  below : v / 2 ^ t < 2 ^ 53
  full : 2 ^ 52 ≤ v / 2 ^ t ∨ t = -1074

theorem Rounded.le {v : ℚ} {n : Nat} {t : Int} (h : Rounded v n t) : n ≤ 2 ^ 53 :=
  h.nearest.ge (by exact_mod_cast le_of_lt h.below)

theorem Rounded.canonical {v : ℚ} {n : Nat} {t : Int} (h : Rounded v n t) (hn : n ≠ 2 ^ 53) :
    Canonical n t := by
  refine ⟨lt_of_le_of_ne h.le hn, h.least, ?_⟩
  rcases h.full with hfull | hleast
  · exact Or.inl (h.nearest.le (by exact_mod_cast hfull))
  · exact Or.inr hleast

/-- The unpacked number `n * 2 ^ t`, where `n` may have got one bit too many. -/
def normalForm (s : Sign) (n : Nat) (t : Int) : UnpackedFloat :=
  if h : n = 0 then .zero s
  else if n = 2 ^ 53 then .finite s (2 ^ 52) (t + 1) (by decide)
  else .finite s n t (Nat.pos_of_ne_zero h)

theorem unpackedValue_normalForm (s : Sign) (n : Nat) (t : Int) :
    unpackedValue (normalForm s n t) = signed s (n * 2 ^ t) := by
  rw [normalForm]
  split
  · next hzero =>
    rw [hzero]
    cases s <;> simp [signed]
  · split
    · next hcarry =>
      rw [hcarry, unpackedValue_finite, zpow_add_one₀ two_ne_zero]
      congr 1
      push_cast
      ring
    · rfl

/-- An unpacked number that is `q` rounded. -/
def RoundsTo (q : ℚ) (u : UnpackedFloat) : Prop :=
  ∃ (s : Sign) (v : ℚ) (n : Nat) (t : Int), q = signed s v ∧ Rounded v n t ∧ u = normalForm s n t

theorem rounded_zero : Rounded 0 0 (-1074) := by
  refine ⟨le_refl _, ⟨?_, fun _ => rfl⟩, le_refl _, ?_, Or.inr rfl⟩
  · norm_num
  · norm_num

theorem roundsTo_zero (s : Sign) : RoundsTo 0 (.zero s) :=
  ⟨s, 0, 0, -1074, by cases s <;> simp [signed], rounded_zero, rfl⟩

/-! ### Rounding -/

theorem roundWithAccuracy_normalForm {s : Sign} {m n : Nat} {e t : Int} {accuracy : Accuracy}
    {em : ExtendedMantissa}
    (hshift : shiftToTargetExponent Format.binary64 m e accuracy = (em, t))
    (hn : em.roundedMantissa = n) (hle : n ≤ 2 ^ 53) (ht : -1074 ≤ t) :
    roundWithAccuracy Format.binary64 s m e accuracy = normalForm s n t := by
  rw [roundWithAccuracy, hshift]
  simp only [hn]
  by_cases hcarry : n = 2 ^ 53
  · subst hcarry
    simp only [shiftToTargetExponent_carry ht]
    rfl
  · simp only [shiftToTargetExponent_short (lt_of_le_of_ne hle hcarry) ht]
    by_cases hzero : n = 0
    · subst hzero
      rfl
    · rw [normalForm, dif_neg hzero, dif_neg hzero, if_neg hcarry]

/-- **Rounding a significand rounds what it stands for**, if it has bits enough. -/
theorem roundsTo_roundWithAccuracy (s : Sign) {m : Nat} {e : Int} {accuracy : Accuracy} {v : ℚ}
    (hv : Lies m (v / 2 ^ e) accuracy) (hbits : 52 ≤ m.log2 ∨ e ≤ -1074) :
    RoundsTo (signed s v) (roundWithAccuracy Format.binary64 s m e accuracy) := by
  obtain ⟨t, ht⟩ : ∃ t, t = max (m.log2 + e - 52) (-1074) := ⟨_, rfl⟩
  obtain ⟨places, hplaces⟩ : ∃ places : Nat, t = e + places := ⟨(t - e).toNat, by omega⟩
  have hshift : shiftToTargetExponent Format.binary64 m e accuracy =
      (ExtendedMantissa.ofMantissaAndAccuracy m accuracy >>> places, t) := by
    have hamount : (t - e).toNat = places := by omega
    rw [shiftToTargetExponent, targetExponent_eq_max, ← ht, shiftToExponent, hamount, ← hplaces]
  have hrepresents : Represents (ExtendedMantissa.ofMantissaAndAccuracy m accuracy >>> places)
      (v / 2 ^ t) := by
    have hpow : v / 2 ^ t = v / 2 ^ e / 2 ^ places := by
      rw [hplaces, zpow_add₀ two_ne_zero, zpow_natCast, div_div]
    rw [hpow]
    exact (represents_ofMantissaAndAccuracy.mpr hv).shiftRight places
  -- what is kept of the significand
  have hkept : (ExtendedMantissa.ofMantissaAndAccuracy m accuracy >>> places).mantissa =
      m / 2 ^ places := by
    rw [shiftRight_mantissa]
    cases accuracy with
    | exact => rfl
    | inexact half => cases half <;> rfl
  obtain ⟨hdown, hup⟩ := Lies.bounds hrepresents
  rw [hkept] at hdown hup
  have hrounded : Rounded v
      (ExtendedMantissa.ofMantissaAndAccuracy m accuracy >>> places).roundedMantissa t := by
    refine ⟨?_, Lies.nearestInteger hrepresents, by omega, ?_, ?_⟩
    · have hunit : (0 : ℚ) < 2 ^ t := by positivity
      have hquotient : 0 ≤ v / 2 ^ t := le_trans (Nat.cast_nonneg _) hdown
      rw [← div_mul_cancel₀ v hunit.ne']
      exact mul_nonneg hquotient hunit.le
    · have hmax : ((m / 2 ^ places : Nat) : ℚ) + 1 ≤ 2 ^ 53 := by
        exact_mod_cast Nat.succ_le_of_lt (div_two_pow_lt (by omega))
      linarith
    · by_cases hleast : t = -1074
      · exact Or.inr hleast
      · have hfull : Full (m / 2 ^ places) := full_div_two_pow (by omega)
        exact Or.inl (le_trans (by exact_mod_cast hfull.1) hdown)
  exact ⟨s, v, _, t, rfl, hrounded,
    roundWithAccuracy_normalForm hshift rfl hrounded.le hrounded.least⟩

theorem lies_exact (m : Nat) (e : Int) : Lies m ((m : ℚ) * 2 ^ e / 2 ^ e) .exact :=
  mul_div_cancel_right₀ _ (zpow_ne_zero e two_ne_zero)

end Reckoner.Number
