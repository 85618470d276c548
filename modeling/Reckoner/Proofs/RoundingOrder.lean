/-
  Reckoner/Proofs/RoundingOrder.lean
  ==================================
  **Rounding keeps the order.**  How coarse the grid is that a number is rounded on is
  told by its magnitude: a larger number is never rounded on a finer grid
  (`Rounded.grid_le`).  On one grid the nearest integers are in order too, because two
  numbers halfway between the same neighbours go the same way, to the even one
  (`NearestInteger.mono`).

  So a number has one rounded value only (`RoundsTo.unique`), and a larger number has no
  smaller one (`RoundsTo.abs_mono`).  For decimals this means that the double of a decimal
  is told by its exact value alone, not by how its digits and its exponent share it
  (`Decimal.toFloat_eq`).
-/
import Reckoner.Proofs.Nearest

namespace Reckoner.Number

open Float.Model Float.Model.UnpackedFloat

/-! ### Integers -/

section Integers

variable {w w' : ℚ} {n n' : Nat}

theorem NearestInteger.mono (h : NearestInteger w n) (h' : NearestInteger w' n') (hle : w ≤ w') :
    n ≤ n' := by
  by_contra hgreater
  have hsucc : (n' : ℚ) + 1 ≤ n := by exact_mod_cast not_le.mp hgreater
  have hlow := (abs_le.mp h.close).1
  have hhigh := (abs_le.mp h'.close).2
  -- both are as far from their integers as can be, so both integers are even
  have htie : |w - n| = 1 / 2 := by
    refine le_antisymm h.close (le_trans ?_ (neg_le_abs _))
    linarith
  have htie' : |w' - n'| = 1 / 2 := by
    refine le_antisymm h'.close (le_trans ?_ (le_abs_self _))
    linarith
  have heven := h.even htie
  have heven' := h'.even htie'
  have hnext : (n : ℚ) = (n' + 1 : Nat) := by
    push_cast
    linarith
  have hnext' : n = n' + 1 := by exact_mod_cast hnext
  omega

theorem NearestInteger.unique (h : NearestInteger w n) (h' : NearestInteger w n') : n = n' :=
  le_antisymm (h.mono h' le_rfl) (h'.mono h le_rfl)

end Integers

/-! ### Magnitudes -/

section Magnitudes

variable {v v' : ℚ} {n n' : Nat} {t t' : Int}

/-- A larger number is not rounded on a finer grid. -/
theorem Rounded.grid_le (h : Rounded v n t) (h' : Rounded v' n' t') (hle : v ≤ v') : t ≤ t' := by
  by_contra hfiner
  have hlt : t' < t := not_le.mp hfiner
  have hleast' := h'.least
  have hunit : (0 : ℚ) < 2 ^ t := by positivity
  have hunit' : (0 : ℚ) < 2 ^ t' := by positivity
  have hfull := h.full.resolve_right (by omega)
  have hbelow' := h'.below
  rw [le_div_iff₀ hunit] at hfull
  rw [div_lt_iff₀ hunit'] at hbelow'
  have htwo := two_zpow_mul_two_le hlt
  linarith

theorem Rounded.mono (h : Rounded v n t) (h' : Rounded v' n' t') (hle : v ≤ v') :
    (n : ℚ) * 2 ^ t ≤ n' * 2 ^ t' := by
  rcases (h.grid_le h' hle).eq_or_lt with rfl | hcoarser
  · have hunit : (0 : ℚ) < 2 ^ t := by positivity
    have hn : (n : ℚ) ≤ n' := by
      exact_mod_cast h.nearest.mono h'.nearest (div_le_div_of_nonneg_right hle hunit.le)
    gcongr
  · -- what is rounded on a finer grid stays below the least of the coarser
    have hleast := h.least
    have htwo := two_zpow_mul_two_le hcoarser
    have hn : (n : ℚ) ≤ 2 ^ 53 := by exact_mod_cast h.le
    have hfull' := h'.full.resolve_right (by omega)
    have hn' : (2 : ℚ) ^ 52 ≤ n' := by
      exact_mod_cast h'.nearest.le (b := 2 ^ 52) (by exact_mod_cast hfull')
    calc (n : ℚ) * 2 ^ t ≤ 2 ^ 53 * 2 ^ t := by gcongr
      _ = 2 ^ 52 * ((2 : ℚ) ^ t * 2) := by ring
      _ ≤ n' * 2 ^ t' := by gcongr

theorem Rounded.unique (h : Rounded v n t) (h' : Rounded v n' t') : n = n' ∧ t = t' := by
  obtain rfl : t = t' := le_antisymm (h.grid_le h' le_rfl) (h'.grid_le h le_rfl)
  exact ⟨h.nearest.unique h'.nearest, rfl⟩

end Magnitudes

/-! ### Signed numbers -/

section Signed

variable {q q' : ℚ} {u u' : UnpackedFloat}

theorem signed_inj {s s' : Sign} {v v' : ℚ} (hv : 0 ≤ v) (hv' : 0 ≤ v')
    (hne : signed s v ≠ 0) (h : signed s v = signed s' v') : s = s' ∧ v = v' := by
  cases s with
  | positive =>
    cases s' with
    | positive => exact ⟨rfl, h⟩
    | negative =>
      change v = -v' at h
      exact absurd (le_antisymm (by linarith) hv : v = 0) hne
  | negative =>
    cases s' with
    | positive =>
      change -v = v' at h
      exact absurd (neg_eq_zero.mpr (le_antisymm (by linarith) hv : v = 0)) hne
    | negative => exact ⟨rfl, neg_inj.mp h⟩

/-- **A number has one rounded value**; zero has two, one of each sign. -/
theorem RoundsTo.unique (h : RoundsTo q u) (h' : RoundsTo q u') (hne : q ≠ 0) : u = u' := by
  obtain ⟨s, v, n, t, rfl, hrounded, rfl⟩ := h
  obtain ⟨s', v', n', t', heq, hrounded', rfl⟩ := h'
  obtain ⟨rfl, rfl⟩ := signed_inj hrounded.nonneg hrounded'.nonneg hne heq
  obtain ⟨rfl, rfl⟩ := hrounded.unique hrounded'
  rfl

/-- **Of a larger number the rounded value is no smaller.** -/
theorem RoundsTo.abs_mono (h : RoundsTo q u) (h' : RoundsTo q' u') (hle : |q| ≤ |q'|) :
    |unpackedValue u| ≤ |unpackedValue u'| := by
  obtain ⟨s, v, n, t, rfl, hrounded, rfl⟩ := h
  obtain ⟨s', v', n', t', rfl, hrounded', rfl⟩ := h'
  rw [abs_signed, abs_signed, abs_of_nonneg hrounded.nonneg, abs_of_nonneg hrounded'.nonneg] at hle
  rw [unpackedValue_normalForm, unpackedValue_normalForm, abs_signed, abs_signed,
    abs_of_nonneg (by positivity), abs_of_nonneg (by positivity)]
  exact hrounded.mono hrounded' hle

theorem RoundsTo.ne_zero {q : ℚ} {u : UnpackedFloat} (h : RoundsTo q u)
    (hne : unpackedValue u ≠ 0) : q ≠ 0 := by
  rintro rfl
  have hle := h.abs_mono (roundsTo_zero .positive) le_rfl
  rw [unpackedValue_zero, abs_zero] at hle
  exact hne (abs_nonpos_iff.mp hle)

end Signed

/-! ### Doubles -/

section Doubles

variable {x y : Float} {d d' : Decimal}

/-- Nothing is lost when a double is unpacked. -/
theorem ofModel_pack_unpack (x : Float) : .ofModel (Float.Model.pack x.toModel.unpack) = x := by
  apply eq_of_toBits_eq
  have hbits : UnpackedFloat.pack Format.binary64
      (UnpackedFloat.unpack Format.binary64 x.toModel.toBits.toBitVec) =
        x.toModel.toBits.toBitVec := pack_unpack_of_valid x.toModel.valid
  exact congrArg UInt64.ofBitVec hbits

theorem eq_of_unpack_eq (h : x.toModel.unpack = y.toModel.unpack) : x = y := by
  rw [← ofModel_pack_unpack x, h, ofModel_pack_unpack y]

/-- Doubles that are equal as numbers are the same, or both are zeros. -/
theorem eq_or_isZero_of_beq (h : (x == y) = true) : x = y ∨ isZero y = true := by
  change (x.toModel.unpack.beq y.toModel.unpack) = true at h
  obtain ⟨-, -, hsame⟩ := (unpack_beq_unpack_iff x.toModel.valid y.toModel.valid).mp h
  have hzero : ∀ {s : Sign}, y.toModel.toBits.toBitVec = packedZero Format.binary64 s →
      isZero y = true := by
    intro s hbits
    have hunpack : y.toModel.unpack = .zero s :=
      (congrArg (UnpackedFloat.unpack Format.binary64) hbits).trans unpack_packedZero
    rw [isZero, hunpack]
  rcases hsame with hbits | ⟨-, hbits⟩ | ⟨-, hbits⟩
  · left
    apply eq_of_unpack_eq
    exact congrArg (UnpackedFloat.unpack Format.binary64) hbits
  · exact Or.inr (hzero hbits)
  · exact Or.inr (hzero hbits)

theorem isFinite_of_unpack {s : UnpackedFloat.Sign} {m : Nat} {e : Int} {hm : 0 < m}
    (hx : x.toModel.unpack = .finite s m e hm) :
    x.isFinite = true := by
  show x.toModel.unpack.isFinite = true
  rw [hx]
  rfl

theorem beq_self_of_isFinite (h : x.isFinite = true) : (x == x) = true := by
  change x.toModel.unpack.isFinite = true at h
  show x.toModel.unpack.beq x.toModel.unpack = true
  rcases hunpack : x.toModel.unpack with _ | s | s | ⟨s, m, e, hm⟩
  · rw [hunpack] at h
    cases h
  · rw [hunpack] at h
    cases h
  · rfl
  · cases s <;> simp [UnpackedFloat.beq, UnpackedFloat.compare]

theorem eq_of_valueOf_eq (hx : x.isFinite = true) (hy : y.isFinite = true)
    (h : valueOf x = valueOf y) (hne : valueOf x ≠ 0) : x = y := by
  apply eq_of_unpack_eq
  have hself := (isDouble_unpack hx).roundsTo
  have hother := (isDouble_unpack hy).roundsTo
  rw [valueOf, valueOf] at h
  rw [← h] at hother
  exact hself.unique hother hne

/-! ### Decimals -/

theorem Decimal.exactValue_nonneg (d : Decimal) : 0 ≤ d.exactValue := by
  rw [exactValue]
  positivity

/-- A decimal that is read as a finite double is read as its exact value, rounded once. -/
theorem Decimal.roundsTo (h : d.toFloat.isFinite = true) :
    RoundsTo d.exactValue d.toFloat.toModel.unpack := by
  by_cases hexponent : d.exponent ≤ 2 ^ 11
  · have hrounds := roundsTo_ofScientific d.coefficient hexponent
    rcases hrounds.pack with ⟨-, hkept⟩ | ⟨hlarge, -⟩
    · change RoundsTo _ (Float.Model.pack _).unpack
      rw [hkept]
      exact hrounds
    · exact absurd ((hrounds.isFinite_iff rfl).mp h) (not_lt.mpr hlarge)
  · -- so large a power of ten is infinite, unless there are no digits before it
    by_cases hzero : d.coefficient = 0
    · have hunpack : d.toFloat.toModel.unpack = .zero .positive := by
        show (Float.Model.pack (UnpackedFloat.ofScientific _ _ _)).unpack = _
        rw [UnpackedFloat.ofScientific, dif_pos hzero]
        rfl
      rw [hunpack, exactValue, hzero, Nat.cast_zero, zero_mul]
      exact roundsTo_zero .positive
    · have hlarge : d.exponent > 2 ^ Format.binary64.exponentBits := not_le.mp hexponent
      have hinfinite : d.toFloat.toModel.unpack = .infinity .positive := by
        show (Float.Model.pack (UnpackedFloat.ofScientific _ _ _)).unpack = _
        rw [UnpackedFloat.ofScientific, dif_neg hzero, if_pos hlarge]
        rfl
      change d.toFloat.toModel.unpack.isFinite = true at h
      rw [hinfinite] at h
      cases h

/-- **Whatever has the same exact value is read as the same double.** -/
theorem Decimal.toFloat_eq (hexponent : d.exponent ≤ 2 ^ 11)
    (h : RoundsTo d.exactValue x.toModel.unpack) (hne : d.exactValue ≠ 0) : d.toFloat = x := by
  have hrounds : RoundsTo d.exactValue _ := roundsTo_ofScientific d.coefficient hexponent
  have hunpack := hrounds.unique h hne
  rw [← ofModel_pack_unpack x, ← hunpack]
  rfl

/-- Of a larger decimal the double is no smaller. -/
theorem Decimal.abs_valueOf_mono (h : d.toFloat.isFinite = true)
    (h' : d'.toFloat.isFinite = true) (hle : d.exactValue ≤ d'.exactValue) :
    |valueOf d.toFloat| ≤ |valueOf d'.toFloat| := by
  refine (Decimal.roundsTo h).abs_mono (Decimal.roundsTo h') ?_
  rw [abs_of_nonneg d.exactValue_nonneg, abs_of_nonneg d'.exactValue_nonneg]
  exact hle

end Doubles

end Reckoner.Number
