/-
  Reckoner/Proofs/Integers.lean
  =============================
  **Integers as doubles.**  Below 2^53 in magnitude an integer is a double, and
  sums, differences and products whose exact result is below it are exact.  From
  2^53 on the exact result may have to be rounded, but rounding never brings it
  back: the significand that is kept has its full 53 bits and a positive exponent,
  so the result is out of the safe range.

  `IsInteger` says which unpacked number an integer below 2^53 is, and `Rounds`
  what an operation may give for any integer.  Operations round their exact result
  once, so it is enough to see what becomes of an integer that is rounded
  (`RoundsTo.rounds`).
-/
import Reckoner.Number.Written
import Reckoner.Proofs.CorrectRounding

namespace Reckoner.Number

open Float.Model Float.Model.UnpackedFloat

/-! ### Integers -/

/-- Which unpacked number an integer below 2^53 in magnitude is. -/
inductive IsInteger : UnpackedFloat → Int → Prop where
  | zero (s : Sign) : IsInteger (.zero s) 0
  | finite (s : Sign) {size places : Nat} (h : Full (size * 2 ^ places)) :
      IsInteger (.finite s (size * 2 ^ places) (-places) h.pos) (s.apply size)

/-- A finite number from 2^53 on in magnitude. -/
inductive IsLarge : UnpackedFloat → Prop where
  | finite (s : Sign) {m e : Nat} (h : Full m) : 0 < e → e ≤ 971 → IsLarge (.finite s m e h.pos)

theorem places_lt {size places : Nat} (h : Full (size * 2 ^ places)) : places < 53 := by
  have hsize : 0 < size := Nat.pos_of_mul_pos_right h.pos
  have hpow : 2 ^ places < 2 ^ 53 := Nat.lt_of_le_of_lt (Nat.le_mul_of_pos_left _ hsize) h.2
  exact (Nat.pow_lt_pow_iff_right (by decide)).mp hpow

/-- What an operation whose exact result is an integer may round it to. -/
def Rounds (u : UnpackedFloat) (i : Int) : Prop :=
  if intInSafeRange i = true then IsInteger u i else IsLarge u

@[simp] theorem natAbs_apply (s : Sign) (size : Nat) : (s.apply size).natAbs = size := by
  cases s <;> simp [Sign.apply]

theorem intInSafeRange_apply (s : Sign) (size : Nat) :
    intInSafeRange (s.apply size) = decide (size < 2 ^ 53) := by
  rw [intInSafeRange, natAbs_apply, safeInteger_eq]
  congr 1
  exact propext (by omega)

theorem IsInteger.inSafeRange {u : UnpackedFloat} {i : Int} (h : IsInteger u i) :
    intInSafeRange i = true := by
  cases h with
  | zero s => decide
  | @finite s size places hfull =>
    have hle : size ≤ size * 2 ^ places := Nat.le_mul_of_pos_right size (Nat.two_pow_pos places)
    have hlt := hfull.2
    rw [intInSafeRange_apply, decide_eq_true_iff]
    omega

theorem natAbs_lt_of_inSafeRange {i : Int} (h : intInSafeRange i = true) : i.natAbs < 2 ^ 53 := by
  rw [intInSafeRange, decide_eq_true_iff, safeInteger_eq] at h
  omega

/-- An integer below 2^53 has a place among the doubles, so it is rounded to itself. -/
theorem Rounded.isInteger {size n : Nat} {t : Int} (h : Rounded size n t) (hsmall : size < 2 ^ 53)
    (s : Sign) : IsInteger (normalForm s n t) (s.apply size) := by
  have hunit : (0 : ℚ) < 2 ^ t := by positivity
  by_cases hzero : size = 0
  · subst hzero
    have hn : n = 0 := Nat.le_zero.mp (h.nearest.ge (by simp))
    subst hn
    have happly : s.apply (0 : Nat) = 0 := by cases s <;> rfl
    rw [happly]
    exact .zero s
  · have ht : t ≤ 0 := by
      by_contra hpos
      have hfull := h.full.resolve_right (by omega)
      rw [le_div_iff₀ hunit] at hfull
      have htwo : (2 : ℚ) ^ (1 : ℤ) ≤ 2 ^ t := zpow_le_zpow_right₀ (by norm_num) (by omega)
      have hlarge : (2 ^ 53 : Nat) ≤ (size : ℚ) := by
        calc ((2 ^ 53 : Nat) : ℚ) = 2 ^ 52 * (2 : ℚ) ^ (1 : ℤ) := by norm_num
          _ ≤ 2 ^ 52 * 2 ^ t := by gcongr
          _ ≤ size := hfull
      exact absurd (by exact_mod_cast hlarge) (Nat.not_le.mpr hsmall)
    obtain ⟨places, rfl⟩ : ∃ places : Nat, t = -(places : Int) := ⟨(-t).toNat, by omega⟩
    have hscaled : (size : ℚ) / 2 ^ (-(places : Int)) = (size * 2 ^ places : Nat) := by
      rw [zpow_neg, zpow_natCast, div_inv_eq_mul]
      push_cast
      rfl
    obtain ⟨-, hnearest, -, hbelow, hfull⟩ := h
    rw [hscaled] at hnearest hbelow hfull
    obtain rfl : n = size * 2 ^ places :=
      Nat.le_antisymm (hnearest.ge (le_refl _)) (hnearest.le (le_refl _))
    have hfits : Full (size * 2 ^ places) := by
      refine ⟨?_, by exact_mod_cast hbelow⟩
      rcases hfull with hfull | hleast
      · exact_mod_cast hfull
      · have hplaces : 2 ^ 52 ≤ 2 ^ places := Nat.pow_le_pow_right (by decide) (by omega)
        exact Nat.le_trans hplaces (Nat.le_mul_of_pos_left _ (Nat.pos_of_ne_zero hzero))
    rw [normalForm, dif_neg (Nat.ne_of_gt hfits.pos), if_neg (Nat.ne_of_lt hfits.2)]
    exact .finite s hfits

/-- An integer from 2^53 on stays large, however it is rounded. -/
theorem Rounded.isLarge {size n : Nat} {t : Int} (h : Rounded size n t) (hlarge : 2 ^ 53 ≤ size)
    (hhigh : size < 2 ^ 106) (s : Sign) : IsLarge (normalForm s n t) := by
  have hunit : (0 : ℚ) < 2 ^ t := by positivity
  have hlow : (2 : ℚ) ^ 53 ≤ size := by exact_mod_cast hlarge
  have hhigh : (size : ℚ) < 2 ^ 106 := by exact_mod_cast hhigh
  have hbelow := h.below
  rw [div_lt_iff₀ hunit] at hbelow
  have hpos : 0 < t := by
    by_contra hnot
    have hone : (2 : ℚ) ^ t ≤ 1 := zpow_le_one_of_nonpos₀ (by norm_num) (by omega)
    linarith
  have hfull := h.full.resolve_right (by omega)
  have hn : 2 ^ 52 ≤ n := h.nearest.le (by exact_mod_cast hfull)
  rw [le_div_iff₀ hunit] at hfull
  have hmax : t < 54 := by
    have hpow : (2 : ℚ) ^ t < 2 ^ (54 : ℤ) := by
      norm_num
      linarith
    exact (zpow_lt_zpow_iff_right₀ (by norm_num)).mp hpow
  obtain ⟨e, rfl⟩ := Int.eq_ofNat_of_zero_le hpos.le
  by_cases hcarry : n = 2 ^ 53
  · have hcarried : Full (2 ^ 52) := ⟨by decide, by decide⟩
    rw [normalForm, dif_neg (by omega), if_pos hcarry]
    exact IsLarge.finite s hcarried (e := e + 1) (by omega) (by omega)
  · rw [normalForm, dif_neg (by omega), if_neg hcarry]
    exact .finite s ⟨hn, lt_of_le_of_ne h.le hcarry⟩ (by omega) (by omega)

/-- **What becomes of an integer that is rounded.** -/
theorem RoundsTo.rounds {u : UnpackedFloat} {i : Int} (h : RoundsTo i u)
    (hhigh : i.natAbs < 2 ^ 106) : Rounds u i := by
  obtain ⟨s, v, n, t, hv, hrounded, rfl⟩ := h
  obtain ⟨size, hsize⟩ : ∃ size : Nat, size = i.natAbs := ⟨_, rfl⟩
  have hmagnitude : v = size := by
    rw [← abs_of_nonneg hrounded.nonneg, ← abs_signed s, ← hv, hsize, Nat.cast_natAbs,
      Int.cast_abs]
  subst hmagnitude
  have hi : i = s.apply size := by
    rw [← Int.cast_inj (α := ℚ), cast_apply, hv]
    rfl
  rw [Rounds, hi, intInSafeRange_apply]
  by_cases hsmall : size < 2 ^ 53
  · rw [if_pos (by simpa using hsmall)]
    exact hrounded.isInteger hsmall s
  · rw [if_neg (by simpa using hsmall)]
    exact hrounded.isLarge (by omega) (by omega) s

/-! ### Operations -/

theorem IsInteger.isDouble {u : UnpackedFloat} {i : Int} (h : IsInteger u i) : IsDouble u := by
  cases h with
  | zero s => exact .zero s
  | @finite s size places hfull =>
    have hplaces := places_lt hfull
    exact .finite s ⟨hfull.2, by omega, Or.inl hfull.1⟩ hfull.pos

theorem IsInteger.value {u : UnpackedFloat} {i : Int} (h : IsInteger u i) : unpackedValue u = i := by
  cases h with
  | zero s => exact Int.cast_zero.symm
  | @finite s size places hfull =>
    rw [unpackedValue_finite, cast_apply, zpow_neg, zpow_natCast]
    push_cast
    rw [mul_inv_cancel_right₀ (by positivity)]

theorem IsInteger.add {u v : UnpackedFloat} {a b : Int} (hu : IsInteger u a) (hv : IsInteger v b) :
    Rounds (UnpackedFloat.add Format.binary64 u v) (a + b) := by
  have ha := natAbs_lt_of_inSafeRange hu.inSafeRange
  have hb := natAbs_lt_of_inSafeRange hv.inSafeRange
  have hrounds := hu.isDouble.add hv.isDouble
  rw [hu.value, hv.value, ← Int.cast_add] at hrounds
  exact hrounds.rounds (by omega)

theorem IsInteger.sub {u v : UnpackedFloat} {a b : Int} (hu : IsInteger u a) (hv : IsInteger v b) :
    Rounds (UnpackedFloat.sub Format.binary64 u v) (a - b) := by
  have ha := natAbs_lt_of_inSafeRange hu.inSafeRange
  have hb := natAbs_lt_of_inSafeRange hv.inSafeRange
  have hrounds := hu.isDouble.sub hv.isDouble
  rw [hu.value, hv.value, ← Int.cast_sub] at hrounds
  exact hrounds.rounds (by omega)

theorem IsInteger.mul {u v : UnpackedFloat} {a b : Int} (hu : IsInteger u a) (hv : IsInteger v b) :
    Rounds (UnpackedFloat.mul Format.binary64 u v) (a * b) := by
  have ha := natAbs_lt_of_inSafeRange hu.inSafeRange
  have hb := natAbs_lt_of_inSafeRange hv.inSafeRange
  have hrounds := hu.isDouble.mul hv.isDouble
  rw [hu.value, hv.value, ← Int.cast_mul] at hrounds
  have hproduct : a.natAbs * b.natAbs < 2 ^ 53 * 2 ^ 53 := Nat.mul_lt_mul_of_lt_of_lt ha hb
  refine hrounds.rounds ?_
  rw [Int.natAbs_mul]
  exact Nat.lt_of_lt_of_le hproduct (by decide)

/-- A row of digits is rounded like any integer. -/
theorem ofScientific_integer {n : Nat} (h : n < 2 ^ 106) :
    Rounds (UnpackedFloat.ofScientific Format.binary64 n 0) n := by
  have hrounds := roundsTo_ofScientific n (e := 0) (by norm_num)
  rw [zpow_zero, mul_one, ← Int.cast_natCast] at hrounds
  exact hrounds.rounds h

theorem IsInteger.neg {u : UnpackedFloat} {i : Int} (h : IsInteger u i) : IsInteger u.neg (-i) := by
  cases h with
  | zero s => exact .zero (-s)
  | finite s hfull =>
    rw [← neg_apply]
    exact .finite (-s) hfull

/-! ### Doubles -/

/-- A double that is an integer below 2^53 in magnitude. -/
def Whole (x : Float) (i : Int) : Prop := IsInteger x.toModel.unpack i

theorem IsInteger.unpack_pack {u : UnpackedFloat} {i : Int} (h : IsInteger u i) :
    (Float.Model.pack u).unpack = u := by
  cases h with
  | zero s => cases s <;> rfl
  | @finite s size places hfull =>
    have hplaces := places_lt hfull
    exact Number.unpack_pack hfull (by omega) (by omega)

theorem IsInteger.unpackedInRange {u : UnpackedFloat} {i : Int} (h : IsInteger u i) :
    unpackedInRange u = true := by
  cases h with
  | zero s => rfl
  | @finite s size places hfull =>
    rw [Number.unpackedInRange]
    by_cases hplaces : places = 0
    · have hle : size * 2 ^ places ≤ safeInteger := by
        have hlt := hfull.2
        rw [safeInteger_eq]
        omega
      have hexponent : compare (-(places : Int)) 0 = .eq := Int.compare_eq_eq.mpr (by omega)
      rw [hexponent, Ordering.eq_then]
      exact Nat.isLE_compare.mpr hle
    · have hexponent : compare (-(places : Int)) 0 = .lt := Int.compare_eq_lt.mpr (by omega)
      rw [hexponent]
      rfl

theorem Whole.toInt?_eq {x : Float} {i : Int} (h : Whole x i) : toInt? x = some i := by
  rw [toInt?]
  unfold Whole at h
  generalize x.toModel.unpack = u at h
  cases h with
  | zero s => rfl
  | @finite s size places hfull =>
    have hsize : wholeSize? (size * 2 ^ places) (-places) = some size := by
      rw [wholeSize?]
      by_cases hplaces : 0 ≤ -(places : Int)
      · obtain rfl : places = 0 := by omega
        rw [if_pos hplaces]
        exact congrArg some (by simp)
      · have hunit : (- -(places : Int)).toNat = places := by omega
        rw [if_neg hplaces, hunit]
        simp [Nat.mul_div_cancel size (Nat.two_pow_pos places)]
    simp only [hsize, Option.map_some]
    cases s <;> rfl

theorem Whole.inSafeRange {x : Float} {i : Int} (h : Whole x i) : inSafeRange x = true := by
  rw [inSafeRange_eq]
  exact IsInteger.unpackedInRange h

theorem Whole.neg {x : Float} {i : Int} (h : Whole x i) : Whole (-x) (-i) := by
  show IsInteger (-x).toModel.unpack (-i)
  rw [unpack_neg]
  exact IsInteger.neg h

/-- A double whose magnitude is from 2^53 on. -/
theorem IsLarge.unpack_pack {u : UnpackedFloat} (h : IsLarge u) :
    (Float.Model.pack u).unpack = u := by
  cases h with
  | finite s hfull hpos hhigh => exact Number.unpack_pack hfull (by omega) (by omega)

theorem IsLarge.unpackedInRange {u : UnpackedFloat} (h : IsLarge u) :
    unpackedInRange u = false := by
  cases h with
  | @finite s m e hfull hpos hhigh =>
    have hexponent : compare (e : Int) 0 = .gt := Int.compare_eq_gt.mpr (by omega)
    rw [Number.unpackedInRange, hexponent]
    rfl

/-- A double that comes of rounding an integer: it is that integer below 2^53 in
    magnitude, and else it is finite and out of the safe range. -/
theorem Rounds.double {u : UnpackedFloat} {i : Int} (h : Rounds u i) {x : Float}
    (hx : x.toModel = Float.Model.pack u) :
    x.isFinite = true ∧ inSafeRange x = intInSafeRange i ∧ (intInSafeRange i = true → Whole x i) := by
  rw [Rounds] at h
  split at h
  · next hrange =>
    have hwhole : Whole x i := by
      rw [Whole, hx, h.unpack_pack]
      exact h
    exact ⟨isFinite_of_inSafeRange hwhole.inSafeRange, by rw [hwhole.inSafeRange, hrange],
      fun _ => hwhole⟩
  · next hrange =>
    have hfinite : x.toModel.unpack.isFinite = true := by
      rw [hx, h.unpack_pack]
      cases h
      rfl
    refine ⟨hfinite, ?_, fun hin => absurd hin hrange⟩
    rw [inSafeRange_eq, hx, h.unpack_pack, h.unpackedInRange]
    simpa using hrange

end Reckoner.Number
