/-
  Reckoner/Proofs/CorrectRounding.lean
  ====================================
  **Operations round once.**  Whatever an operation on two finite doubles, or the
  reading of a decimal, gives is its exact result rounded, and nothing is rounded on
  the way to it.

  An operation may round only a significand with bits enough, and each sees to that in
  a way of its own: sums and differences bring both operands to the lower of their
  exponents and add zeros where bits are missing, products of two significands have
  bits enough unless both are subnormal (`Canonical.mul_bits`), and a quotient is taken
  of a dividend with as many zeros as are needed (`divCore_eq`).
-/
import Reckoner.Proofs.Rounding

namespace Reckoner.Number

open Float.Model Float.Model.UnpackedFloat

/-! ### Products and sums -/

theorem roundsTo_product (s : Sign) {m m' : Nat} {e e' : Int}
    (hbits : 52 ≤ (m * m').log2 ∨ e + e' ≤ -1074) :
    RoundsTo (signed s (m * 2 ^ e * (m' * 2 ^ e')))
      (roundWithAccuracy Format.binary64 s (m * m') (e + e') .exact) := by
  have hvalue : (m : ℚ) * 2 ^ e * (m' * 2 ^ e') = (m * m' : Nat) * 2 ^ (e + e') := by
    rw [zpow_add₀ two_ne_zero, Nat.cast_mul, mul_mul_mul_comm]
  rw [hvalue]
  exact roundsTo_roundWithAccuracy s (lies_exact _ _) hbits

theorem log2_mul_two_pow {m : Nat} (hm : 0 < m) (n : Nat) : (m * 2 ^ n).log2 = m.log2 + n := by
  induction n with
  | zero => rw [Nat.pow_zero, Nat.mul_one, Nat.add_zero]
  | succ n ih =>
    have hpos : 0 < m * 2 ^ n := Nat.mul_pos hm (Nat.two_pow_pos n)
    have hdouble : m * 2 ^ (n + 1) = 2 * (m * 2 ^ n) := by
      rw [Nat.pow_succ, Nat.mul_comm 2, Nat.mul_assoc]
    rw [hdouble, Nat.log2_two_mul (by omega), ih, Nat.add_assoc]

/-- Rounding may first lower the exponent to have bits enough. -/
theorem roundsTo_round (s : Sign) {m : Nat} (hm : 0 < m) (e : Int) :
    RoundsTo (signed s (m * 2 ^ e)) (UnpackedFloat.round Format.binary64 s m e) := by
  obtain ⟨added, hadded⟩ :
      ∃ added : Nat, (e - max (m.log2 + e - 52) (-1074)).toNat = added := ⟨_, rfl⟩
  have hvalue : (m : ℚ) * 2 ^ e = (m * 2 ^ added : Nat) * 2 ^ (e - added) := by
    rw [zpow_sub₀ two_ne_zero, zpow_natCast]
    push_cast
    field_simp
  have hlog := log2_mul_two_pow hm added
  rw [UnpackedFloat.round, targetExponent_eq_max, decreaseExponent]
  simp only [hadded, Nat.shiftLeft_eq]
  rw [hvalue]
  exact roundsTo_roundWithAccuracy s (lies_exact _ _) (by omega)

theorem normalize_apply (spec : Format) (s : Sign) {m : Nat} (hm : 0 < m) (e : Int) (z : Sign) :
    UnpackedFloat.normalize spec (s.apply m) e z = UnpackedFloat.round spec s m e := by
  cases s with
  | positive =>
    have hgt : compare (m : Int) 0 = .gt := Int.compare_eq_gt.mpr (by omega)
    show UnpackedFloat.normalize spec (m : Int) e z = _
    rw [UnpackedFloat.normalize, hgt, Int.toNat_natCast]
  | negative =>
    have hlt : compare (-(m : Int)) 0 = .lt := Int.compare_eq_lt.mpr (by omega)
    show UnpackedFloat.normalize spec (-(m : Int)) e z = _
    rw [UnpackedFloat.normalize, hlt, Int.neg_neg, Int.toNat_natCast]

theorem exists_apply (i : Int) : ∃ s : Sign, i = s.apply i.natAbs := by
  rcases Int.le_total 0 i with h | h
  · exact ⟨.positive, by show i = (i.natAbs : Int); omega⟩
  · exact ⟨.negative, by show i = -(i.natAbs : Int); omega⟩

theorem roundsTo_normalize (i e : Int) :
    RoundsTo (i * 2 ^ e) (UnpackedFloat.normalize Format.binary64 i e .positive) := by
  by_cases hzero : i = 0
  · subst hzero
    rw [Int.cast_zero, zero_mul]
    exact roundsTo_zero .positive
  · obtain ⟨s, hs⟩ := exists_apply i
    have hvalue : (i : ℚ) * 2 ^ e = signed s (i.natAbs * 2 ^ e) := by
      rw [← signed_mul, ← Int.cast_natCast i.natAbs, ← cast_apply, ← hs]
    have hnormalize : UnpackedFloat.normalize Format.binary64 i e .positive =
        UnpackedFloat.round Format.binary64 s i.natAbs e := by
      rw [← normalize_apply _ s (by omega) e .positive, ← hs]
    rw [hvalue, hnormalize]
    exact roundsTo_round s (by omega) e

/-! ### Quotients -/

/-- The note that division leaves. -/
theorem lies_accuracyOfFraction {q num den : Nat} (h : num < den) :
    Lies q (q + num / den) (accuracyOfFraction num den) := by
  have hden : (0 : ℚ) < den := by exact_mod_cast Nat.zero_lt_of_lt h
  rw [accuracyOfFraction]
  split
  · next hzero =>
    rw [hzero]
    simp [Lies]
  · next hpos =>
    have hnum : (0 : ℚ) < num := by exact_mod_cast Nat.pos_of_ne_zero hpos
    have hfraction : 0 < (num : ℚ) / den := div_pos hnum hden
    have hone : (num : ℚ) / den < 1 := by
      rw [div_lt_one hden]
      exact_mod_cast h
    rcases Nat.lt_trichotomy (2 * num) den with hlt | heq | hgt
    · rw [Nat.compare_eq_lt.mpr hlt]
      have hhalf : (num : ℚ) / den < 1 / 2 := by
        rw [div_lt_div_iff₀ hden two_pos]
        exact_mod_cast (by omega : num * 2 < 1 * den)
      exact ⟨by linarith, by linarith⟩
    · rw [Nat.compare_eq_eq.mpr heq]
      have hhalf : (num : ℚ) / den = 1 / 2 := by
        rw [div_eq_div_iff (ne_of_gt hden) two_ne_zero]
        exact_mod_cast (by omega : num * 2 = 1 * den)
      show (q : ℚ) + num / den = q + 1 / 2
      rw [hhalf]
    · rw [Nat.compare_eq_gt.mpr hgt]
      have hhalf : 1 / 2 < (num : ℚ) / den := by
        rw [div_lt_div_iff₀ two_pos hden]
        exact_mod_cast (by omega : 1 * den < num * 2)
      exact ⟨by linarith, by linarith⟩

/-- Division first adds so many zeros to the dividend that the quotient has bits
    enough. -/
theorem divCore_eq (m m' : Nat) (e e' : Int) :
    ∃ (added : Nat) (t : Int), e - e' = t + added ∧
      (52 + (m'.log2 + 1) ≤ m.log2 + added ∨ t ≤ -1074) ∧
      divCore Format.binary64 m e m' e' =
        (m * 2 ^ added / m', t, accuracyOfFraction (m * 2 ^ added % m') m') := by
  have hmin : Format.binary64.minExponent = -1074 := by decide
  have hbits : Format.binary64.mantissaBits = 53 := rfl
  obtain ⟨t, ht⟩ : ∃ t, min (e - e')
      (Format.binary64.targetExponent (totalExponent m e - totalExponent m' e')) = t := ⟨_, rfl⟩
  obtain ⟨added, hadded⟩ : ∃ added : Nat, (e - e' - t).toNat = added := ⟨_, rfl⟩
  refine ⟨added, t, ?_, ?_, ?_⟩
  · omega
  · rw [Format.targetExponent, totalExponent, totalExponent, hmin, hbits] at ht
    omega
  · rw [divCore, ht, hadded, Nat.shiftLeft_eq]

theorem lies_quotient {m m' added : Nat} (hm' : 0 < m') {e e' t : Int} (h : e - e' = t + added) :
    Lies (m * 2 ^ added / m') ((m : ℚ) * 2 ^ e / (m' * 2 ^ e') / 2 ^ t)
      (accuracyOfFraction (m * 2 ^ added % m') m') := by
  have hsplit : (m : ℚ) * 2 ^ added =
      m' * (m * 2 ^ added / m' : Nat) + (m * 2 ^ added % m' : Nat) := by
    exact_mod_cast (Nat.div_add_mod (m * 2 ^ added) m').symm
  have hpow : (2 : ℚ) ^ e = 2 ^ t * 2 ^ added * 2 ^ e' := by
    rw [← zpow_natCast, ← zpow_add₀ two_ne_zero, ← zpow_add₀ two_ne_zero]
    congr 1
    omega
  have hvalue : (m : ℚ) * 2 ^ e / (m' * 2 ^ e') / 2 ^ t =
      (m * 2 ^ added / m' : Nat) + (m * 2 ^ added % m' : Nat) / m' := by
    have ht : (2 : ℚ) ^ t ≠ 0 := zpow_ne_zero t two_ne_zero
    have he' : (2 : ℚ) ^ e' ≠ 0 := zpow_ne_zero e' two_ne_zero
    have hden : (m' : ℚ) ≠ 0 := Nat.cast_ne_zero.mpr (Nat.ne_of_gt hm')
    rw [hpow]
    field_simp
    linarith
  rw [hvalue]
  exact lies_accuracyOfFraction (Nat.mod_lt _ hm')

theorem quotient_bits {m m' added : Nat} (hm : 0 < m) (hm' : 0 < m')
    (h : 52 + (m'.log2 + 1) ≤ m.log2 + added) : 52 ≤ (m * 2 ^ added / m').log2 := by
  have hlow : 2 ^ m.log2 ≤ m := Nat.log2_self_le (Nat.ne_of_gt hm)
  have hhigh : m' < 2 ^ (m'.log2 + 1) := Nat.lt_log2_self
  have hquotient : 2 ^ 52 ≤ m * 2 ^ added / m' := by
    rw [Nat.le_div_iff_mul_le hm']
    calc 2 ^ 52 * m' ≤ 2 ^ 52 * 2 ^ (m'.log2 + 1) := by gcongr
      _ = 2 ^ (52 + (m'.log2 + 1)) := (Nat.pow_add 2 52 _).symm
      _ ≤ 2 ^ (m.log2 + added) := Nat.pow_le_pow_right two_pos h
      _ = 2 ^ m.log2 * 2 ^ added := Nat.pow_add 2 _ _
      _ ≤ m * 2 ^ added := by gcongr
  exact (Nat.le_log2 (by omega)).mpr hquotient

theorem roundsTo_div (s : Sign) {m m' : Nat} (hm : 0 < m) (hm' : 0 < m') (e e' : Int) :
    RoundsTo (signed s ((m : ℚ) * 2 ^ e / (m' * 2 ^ e')))
      (match divCore Format.binary64 m e m' e' with
      | (q, t, accuracy) => roundWithAccuracy Format.binary64 s q t accuracy) := by
  obtain ⟨added, t, hexponent, henough, hcore⟩ := divCore_eq m m' e e'
  rw [hcore]
  exact roundsTo_roundWithAccuracy s (lies_quotient hm' hexponent)
    (henough.imp_left (quotient_bits hm hm'))

/-! ### Operations -/

/-- A finite unpacked number as unpacking gives it. -/
inductive IsDouble : UnpackedFloat → Prop where
  | zero (s : Sign) : IsDouble (.zero s)
  | finite (s : Sign) {m : Nat} {e : Int} (h : Canonical m e) (hm : 0 < m) :
      IsDouble (.finite s m e hm)

theorem isDouble_unpack {x : Float} (h : x.isFinite = true) : IsDouble x.toModel.unpack := by
  change x.toModel.unpack.isFinite = true at h
  cases hx : x.toModel.unpack with
  | notANumber => rw [hx] at h; cases h
  | infinity s => rw [hx] at h; cases h
  | zero s => exact .zero s
  | finite s m e hm => exact .finite s (canonical_unpack hx) hm

theorem IsDouble.neg {u : UnpackedFloat} (h : IsDouble u) : IsDouble u.neg := by
  cases h with
  | zero s => exact .zero (-s)
  | finite s h hm => exact .finite (-s) h hm

/-- A double is itself rounded. -/
theorem IsDouble.roundsTo {u : UnpackedFloat} (h : IsDouble u) : RoundsTo (unpackedValue u) u := by
  cases h with
  | zero s => exact roundsTo_zero s
  | @finite s m e h hm =>
    have hunit : (m : ℚ) * 2 ^ e / 2 ^ e = m := lies_exact m e
    refine ⟨s, m * 2 ^ e, m, e, rfl, ⟨by positivity, ?_, h.least, ?_, ?_⟩, ?_⟩
    · rw [hunit]
      constructor <;> norm_num
    · rw [hunit]
      exact_mod_cast h.bits
    · rw [hunit]
      exact_mod_cast h.full
    · rw [normalForm, dif_neg (Nat.ne_of_gt hm), if_neg (Nat.ne_of_lt h.bits)]

/-- Bringing a number to a lower exponent keeps its value. -/
theorem cast_apply_decreaseExponent (s : Sign) (m : Nat) {e least : Int} (h : least ≤ e) :
    ((s.apply (decreaseExponent m e least).1 : ℤ) : ℚ) * 2 ^ least = signed s (m * 2 ^ e) := by
  obtain ⟨added, rfl⟩ : ∃ added : Nat, e = least + added := ⟨(e - least).toNat, by omega⟩
  have hamount : (least + added - least).toNat = added := by omega
  rw [cast_apply, signed_mul, decreaseExponent, hamount, Nat.shiftLeft_eq,
    zpow_add₀ two_ne_zero, zpow_natCast]
  push_cast
  congr 1
  ring

/-- **Sums are rounded once.** -/
theorem IsDouble.add {u v : UnpackedFloat} (hu : IsDouble u) (hv : IsDouble v) :
    RoundsTo (unpackedValue u + unpackedValue v) (UnpackedFloat.add Format.binary64 u v) := by
  cases hu with
  | zero s =>
    rw [unpackedValue_zero, zero_add]
    cases hv with
    | zero s' => cases s <;> cases s' <;> exact roundsTo_zero _
    | finite s' h hm => exact (IsDouble.finite s' h hm).roundsTo
  | @finite s m e h hm =>
    cases hv with
    | zero s' =>
      rw [unpackedValue_zero, add_zero]
      exact (IsDouble.finite s h hm).roundsTo
    | @finite s' m' e' h' hm' =>
      rw [unpackedValue_finite, unpackedValue_finite, ← cast_apply_decreaseExponent s m (min_le_left e e'),
        ← cast_apply_decreaseExponent s' m' (min_le_right e e'), ← add_mul, ← Int.cast_add]
      exact roundsTo_normalize _ _

theorem neg_apply (s : Sign) (size : Int) : (-s).apply size = -s.apply size := by
  cases s with
  | positive => rfl
  | negative => exact (Int.neg_neg size).symm

theorem sub_eq_add_neg (spec : Format) (u v : UnpackedFloat) :
    UnpackedFloat.sub spec u v = UnpackedFloat.add spec u v.neg := by
  cases u <;> cases v <;> try rfl
  simp only [UnpackedFloat.sub, UnpackedFloat.add, UnpackedFloat.neg, neg_apply, Int.sub_eq_add_neg]

/-- **Differences are rounded once.** -/
theorem IsDouble.sub {u v : UnpackedFloat} (hu : IsDouble u) (hv : IsDouble v) :
    RoundsTo (unpackedValue u - unpackedValue v) (UnpackedFloat.sub Format.binary64 u v) := by
  rw [sub_eq_add_neg, Rat.sub_eq_add_neg, ← unpackedValue_neg]
  exact hu.add hv.neg

/-- A product of two significands has bits enough, unless both are subnormal. -/
theorem Canonical.mul_bits {m m' : Nat} {e e' : Int} (h : Canonical m e) (h' : Canonical m' e')
    (hm : 0 < m) (hm' : 0 < m') : 52 ≤ (m * m').log2 ∨ e + e' ≤ -1074 := by
  have hpos := Nat.mul_pos hm hm'
  rcases h.full with hfull | hleast
  · exact Or.inl ((Nat.le_log2 (Nat.ne_of_gt hpos)).mpr
      (le_trans hfull (Nat.le_mul_of_pos_right m hm')))
  · rcases h'.full with hfull' | hleast'
    · exact Or.inl ((Nat.le_log2 (Nat.ne_of_gt hpos)).mpr
        (le_trans hfull' (Nat.le_mul_of_pos_left m' hm)))
    · exact Or.inr (by omega)

/-- **Products are rounded once.** -/
theorem IsDouble.mul {u v : UnpackedFloat} (hu : IsDouble u) (hv : IsDouble v) :
    RoundsTo (unpackedValue u * unpackedValue v) (UnpackedFloat.mul Format.binary64 u v) := by
  cases hu with
  | zero s =>
    rw [unpackedValue_zero, zero_mul]
    cases hv with
    | zero s' => exact roundsTo_zero _
    | finite s' h hm => exact roundsTo_zero _
  | @finite s m e h hm =>
    cases hv with
    | zero s' =>
      rw [unpackedValue_zero, mul_zero]
      exact roundsTo_zero _
    | @finite s' m' e' h' hm' =>
      rw [unpackedValue_finite, unpackedValue_finite, signed_mul_signed]
      exact roundsTo_product (s * s') (h.mul_bits h' hm hm')

/-- **Quotients are rounded once**, if the divisor is not zero. -/
theorem IsDouble.div {u v : UnpackedFloat} (hu : IsDouble u) (hv : IsDouble v)
    (hzero : unpackedValue v ≠ 0) :
    RoundsTo (unpackedValue u / unpackedValue v) (UnpackedFloat.div Format.binary64 u v) := by
  cases hv with
  | zero s' => exact absurd rfl hzero
  | @finite s' m' e' h' hm' =>
    cases hu with
    | zero s =>
      rw [unpackedValue_zero, zero_div]
      exact roundsTo_zero _
    | @finite s m e h hm =>
      rw [unpackedValue_finite, unpackedValue_finite, signed_div_signed]
      exact roundsTo_div (s / s') hm hm' e e'

/-! ### Decimals -/

/-- The exact value of a decimal. -/
def Decimal.exactValue (d : Decimal) : ℚ := d.coefficient * 10 ^ d.exponent

/-- Less than half of the least double is rounded to zero. -/
theorem rounded_tiny {v : ℚ} (hpos : 0 ≤ v) (h : v < 2 ^ (-1075 : ℤ)) : Rounded v 0 (-1074) := by
  have hunit : (0 : ℚ) < 2 ^ (-1074 : ℤ) := by positivity
  have hhalf : (2 : ℚ) ^ (-1075 : ℤ) = 1 / 2 * 2 ^ (-1074 : ℤ) := by
    rw [show (-1075 : ℤ) = -1 + -1074 from rfl, zpow_add₀ two_ne_zero]
    norm_num
  have hsmall : v / 2 ^ (-1074 : ℤ) < 1 / 2 := by
    rw [div_lt_iff₀ hunit, ← hhalf]
    exact h
  have hquotient : 0 ≤ v / 2 ^ (-1074 : ℤ) := div_nonneg hpos (le_of_lt hunit)
  refine ⟨hpos, ⟨?_, fun _ => rfl⟩, le_refl _, by linarith, Or.inr rfl⟩
  rw [Nat.cast_zero, sub_zero, abs_of_nonneg hquotient]
  exact le_of_lt hsmall

/-- A decimal with so low an exponent is less than half of the least double. -/
theorem decimal_tiny {m : Nat} {e : Int} (hm : m ≠ 0) (he : e < -(2048 + (m.log2 : Int))) :
    (m : ℚ) * 10 ^ e < 2 ^ (-1075 : ℤ) := by
  obtain ⟨k, hk⟩ : ∃ k : Nat, e = -(k : Int) := ⟨(-e).toNat, by omega⟩
  have hmantissa : (m : ℚ) < 2 ^ (m.log2 + 1) := by exact_mod_cast Nat.lt_log2_self
  have hten : (10 : ℚ) ^ e ≤ 2 ^ e := by
    rw [hk, zpow_neg, zpow_neg, zpow_natCast, zpow_natCast]
    gcongr
    norm_num
  have hunit : (0 : ℚ) < 2 ^ e := by positivity
  calc (m : ℚ) * 10 ^ e ≤ m * 2 ^ e := by gcongr
    _ < 2 ^ (m.log2 + 1) * 2 ^ e := by gcongr
    _ = 2 ^ ((m.log2 : ℤ) + 1 + e) := by
      rw [zpow_add₀ two_ne_zero, ← zpow_natCast]
      push_cast
      rfl
    _ ≤ 2 ^ (-1075 : ℤ) := zpow_le_zpow_right₀ (by norm_num) (by omega)

/-- **Decimals are rounded once**, however many digits they have. -/
theorem roundsTo_ofScientific (m : Nat) {e : Int} (he : e ≤ 2 ^ 11) :
    RoundsTo (m * 10 ^ e) (UnpackedFloat.ofScientific Format.binary64 m e) := by
  have hlarge : ¬ e > 2 ^ Format.binary64.exponentBits := not_lt.mpr he
  have hrange : (2 ^ Format.binary64.exponentBits : Int) = 2048 := by decide
  by_cases hzero : m = 0
  · subst hzero
    rw [Nat.cast_zero, zero_mul]
    exact roundsTo_zero .positive
  · have hpos : 0 < m := Nat.pos_of_ne_zero hzero
    rw [UnpackedFloat.ofScientific, dif_neg hzero, if_neg hlarge, hrange]
    split
    · next htiny =>
      exact ⟨.positive, _, 0, -1074, rfl,
        rounded_tiny (by positivity) (decimal_tiny hzero htiny), rfl⟩
    · split
      · next hwhole =>
        obtain ⟨k, rfl⟩ := Int.eq_ofNat_of_zero_le hwhole
        have hvalue : (m : ℚ) * (10 : ℚ) ^ (k : Int) =
            ((m <<< 53 : Nat) : ℚ) * 2 ^ (-53 : ℤ) * ((10 ^ k : Nat) * 2 ^ (0 : ℤ)) := by
          rw [Nat.shiftLeft_eq, zpow_natCast, zpow_zero, mul_one, zpow_neg]
          push_cast
          field_simp
        have hbits : 52 ≤ (m <<< 53 * 10 ^ k).log2 := by
          have hten : 0 < 10 ^ k := Nat.pow_pos (by decide)
          have hshifted : 2 ^ 53 ≤ m <<< 53 := by
            rw [Nat.shiftLeft_eq]
            exact Nat.le_mul_of_pos_left _ hpos
          have hproduct := Nat.le_mul_of_pos_right (m <<< 53) hten
          exact (Nat.le_log2 (by omega)).mpr (by omega)
        rw [hvalue]
        exact roundsTo_product .positive (Or.inl hbits)
      · next hfraction =>
        obtain ⟨k, rfl⟩ : ∃ k : Nat, e = -(k : Int) := ⟨(-e).toNat, by omega⟩
        have hk : (- -(k : Int)).toNat = k := by omega
        have hvalue : (m : ℚ) * 10 ^ (-(k : Int)) =
            (m : ℚ) * 2 ^ (0 : ℤ) / ((10 ^ k : Nat) * 2 ^ (0 : ℤ)) := by
          rw [zpow_neg, zpow_natCast, zpow_zero, mul_one, mul_one]
          push_cast
          rfl
        rw [hvalue]
        simp only [hk]
        exact roundsTo_div .positive hpos (Nat.pow_pos (by decide)) 0 0

end Reckoner.Number
