/-
  Reckoner/Proofs/Binary64.lean
  =============================
  **Doubles, taken apart.**  Every operation on doubles unpacks its operands,
  works on signs, significands and exponents, and packs the result.  A law of
  doubles is therefore a law of unpacked numbers as soon as the two ends are
  understood.  This module is about the ends: what the safe range is on an
  unpacked number (`inSafeRange_eq`), that a number in normal form is packed
  without loss (`unpack_pack`), and that the negative of any double has the other
  sign and is the same in all else (`unpack_neg`).
-/
import Mathlib
import Reckoner.Number.Double

namespace Reckoner.Number

open Float.Model Float.Model.UnpackedFloat

/-- A double is told by its bits; there is only one that is no number. -/
theorem eq_of_toBits_eq {x y : Float} (h : x.toBits = y.toBits) : x = y := by
  obtain ⟨⟨a, ha⟩⟩ := x
  obtain ⟨⟨b, hb⟩⟩ := y
  obtain rfl : a = b := h
  rfl

/-! ### The safe range -/

theorem safeInteger_eq : safeInteger = 2 ^ 53 - 1 := rfl

theorem unpack_safeLimit :
    safeLimit.toModel.unpack = .finite .positive safeInteger 0 (by decide) := by
  rfl

theorem unpack_neg_safeLimit :
    (-safeLimit).toModel.unpack = .finite .negative safeInteger 0 (by decide) := by
  rfl

/-- Whether an unpacked number is in the safe range.  Magnitudes are compared as
    exponents first, which is right for numbers in normal form. -/
def unpackedInRange : UnpackedFloat → Bool
  | .notANumber => false
  | .infinity _ => false
  | .zero _ => true
  | .finite _ significand exponent _ =>
    ((compare exponent 0).then (compare significand safeInteger)).isLE

theorem decide_le_eq (x y : Float) :
    decide (x ≤ y) = x.toModel.unpack.le y.toModel.unpack := by
  show decide ((decide ((x.toModel.unpack.le y.toModel.unpack) = true)) = true) = _
  simp

theorem inSafeRange_eq (x : Float) : inSafeRange x = unpackedInRange x.toModel.unpack := by
  unfold inSafeRange
  rw [decide_le_eq, decide_le_eq, unpack_safeLimit, unpack_neg_safeLimit]
  cases x.toModel.unpack with
  | notANumber => rfl
  | infinity s => cases s <;> rfl
  | zero s => cases s <;> rfl
  | finite s m e hm =>
    cases s with
    | positive => rfl
    | negative =>
      show (((compare 0 e).then (compare safeInteger m)).swap.isLE && true) =
        ((compare e 0).then (compare m safeInteger)).isLE
      have he : (compare 0 e).swap = compare e 0 := Std.OrientedCmp.eq_swap.symm
      have hm : (compare safeInteger m).swap = compare m safeInteger :=
        Std.OrientedCmp.eq_swap.symm
      rw [Ordering.swap_then, Bool.and_true, he, hm]

theorem isFinite_of_inSafeRange {x : Float} (h : inSafeRange x = true) : x.isFinite = true := by
  rw [inSafeRange_eq] at h
  show x.toModel.unpack.isFinite = true
  cases hx : x.toModel.unpack with
  | notANumber => rw [hx] at h; cases h
  | infinity s => rw [hx] at h; cases h
  | zero s => rfl
  | finite s m e hm => rfl

/-! ### Numbers, infinities and what is no number -/

theorem not_isNaN {x : Float} (h : x.isFinite = true ∨ x.isInf = true) : x.isNaN = false := by
  change x.toModel.unpack.isFinite = true ∨ x.toModel.unpack.isInf = true at h
  show x.toModel.unpack.isNaN = false
  cases hunpack : x.toModel.unpack with
  | notANumber =>
    rw [hunpack] at h
    rcases h with h | h <;> cases h
  | _ => rfl

theorem not_isInf {x : Float} (h : x.isFinite = true) : x.isInf = false := by
  change x.toModel.unpack.isFinite = true at h
  show x.toModel.unpack.isInf = false
  cases hunpack : x.toModel.unpack with
  | infinity s =>
    rw [hunpack] at h
    cases h
  | _ => rfl

/-! ### Packing -/

/-- A significand of exactly 53 bits. -/
def Full (significand : Nat) : Prop := 2 ^ 52 ≤ significand ∧ significand < 2 ^ 53

theorem Full.pos {m : Nat} (h : Full m) : 0 < m := by
  have := h.1
  omega

theorem Full.log2_eq {m : Nat} (h : Full m) : m.log2 = 52 :=
  (Nat.log2_eq_iff (Nat.ne_of_gt h.pos)).mpr h

/-- The leading bit, which is not stored, is put back. -/
theorem Full.toNat_append {m : Nat} (h : Full m) : (1#1 ++ BitVec.ofNat 52 m).toNat = m := by
  have hlow : m % 2 ^ 52 < 2 ^ 52 := Nat.mod_lt m (by decide)
  have hm := h
  rw [BitVec.toNat_append, BitVec.toNat_ofNat, BitVec.toNat_ofNat,
    ← Nat.shiftLeft_add_eq_or_of_lt hlow, Nat.shiftLeft_eq]
  unfold Full at hm
  omega

theorem finite_congr {s : Sign} {m m' : Nat} {e e' : Int} {hm : 0 < m} {hm' : 0 < m'}
    (h : m = m') (he : e = e') :
    UnpackedFloat.finite s m e hm = UnpackedFloat.finite s m' e' hm' := by
  subst h he
  rfl

/-- **A number in normal form survives packing.** -/
theorem unpack_pack {s : Sign} {m : Nat} {e : Int} (hm : Full m) (hlow : -1074 ≤ e)
    (hhigh : e ≤ 971) :
    (Float.Model.pack (.finite s m e hm.pos)).unpack = .finite s m e hm.pos := by
  have hbits : (e + Format.binary64.exponentBias + Format.binary64.mantissaBitsWithoutImplicit).toNat =
      (e + 1075).toNat := by
    show (e + 1023 + 52).toNat = _
    omega
  have hbias : (BitVec.ofNat 11 (e + 1075).toNat).toNat = (e + 1075).toNat := by
    rw [BitVec.toNat_ofNat]
    omega
  have hfinite : ¬ 2 ^ Format.binary64.exponentBits ≤ (e + 1075).toNat + 1 := by
    show ¬ 2048 ≤ _
    omega
  have hpack : UnpackedFloat.pack Format.binary64 (.finite s m e hm.pos) =
      packComponents Format.binary64 s (BitVec.ofNat 11 (e + 1075).toNat) (BitVec.ofNat 52 m) := by
    simp only [UnpackedFloat.pack, hbits, if_neg hfinite, hm.log2_eq]
    rfl
  have hnotInfinite : BitVec.ofNat 11 (e + 1075).toNat ≠ -1#11 := by
    intro h
    have := congrArg BitVec.toNat h
    rw [hbias] at this
    change _ = 2047 at this
    omega
  have hnotZero : BitVec.ofNat 11 (e + 1075).toNat ≠ 0#11 := by
    intro h
    have := congrArg BitVec.toNat h
    rw [hbias] at this
    change _ = 0 at this
    omega
  have hexponent : ((e + 1075).toNat : Int) - (1023 + 52) = e := by omega
  show UnpackedFloat.unpack Format.binary64 (UnpackedFloat.pack Format.binary64 _) = _
  rw [hpack, UnpackedFloat.unpack]
  simp only [unpackMantissa_packComponents, unpackExponent_packComponents,
    unpackSign_packComponents, Sign.ofBitVec_toBitVec]
  rw [if_neg hnotInfinite, if_neg hnotZero]
  exact finite_congr hm.toNat_append (by rw [hbias]; exact hexponent)

/-! ### The other sign -/

/-- The bits of a double with the other sign. -/
def flipSign (b : BitVec Format.binary64.numBits) : BitVec Format.binary64.numBits :=
  packComponents Format.binary64 (-Sign.ofBitVec (unpackSign b)) (unpackExponent b)
    (unpackMantissa b)

theorem unpack_flipSign (b : BitVec Format.binary64.numBits) :
    UnpackedFloat.unpack Format.binary64 (flipSign b) =
      (UnpackedFloat.unpack Format.binary64 b).neg := by
  simp only [flipSign, UnpackedFloat.unpack, unpackMantissa_packComponents,
    unpackExponent_packComponents, unpackSign_packComponents, Sign.ofBitVec_toBitVec]
  split
  · split <;> rfl
  · split
    · split <;> rfl
    · rfl

theorem valid_flipSign {b : BitVec Format.binary64.numBits}
    (h : UnpackedFloat.unpack Format.binary64 b ≠ .notANumber) :
    Format.binary64.Valid (flipSign b) := by
  constructor
  intro hexponent hmantissa
  rw [flipSign, unpackExponent_packComponents] at hexponent
  rw [flipSign, unpackMantissa_packComponents] at hmantissa
  refine absurd ?_ h
  rw [UnpackedFloat.unpack]
  simp only [if_pos hexponent, if_neg hmantissa]

/-- **The negative of a double has the other sign**, and nothing else about it
    differs; this holds of subnormal and infinite doubles too. -/
theorem unpack_neg (x : Float) : (-x).toModel.unpack = x.toModel.unpack.neg := by
  show (Float.Model.pack x.toModel.unpack.neg).unpack = x.toModel.unpack.neg
  by_cases hnan : x.toModel.unpack = .notANumber
  · rw [hnan]
    rfl
  · show UnpackedFloat.unpack Format.binary64
      (UnpackedFloat.pack Format.binary64 x.toModel.unpack.neg) = x.toModel.unpack.neg
    have hflip : UnpackedFloat.unpack Format.binary64 (flipSign x.toModel.toBits.toBitVec) =
        x.toModel.unpack.neg := unpack_flipSign _
    rw [← hflip, pack_unpack_of_valid (valid_flipSign hnan)]

theorem isFinite_neg (x : Float) : (-x).isFinite = x.isFinite := by
  show (-x).toModel.unpack.isFinite = x.toModel.unpack.isFinite
  rw [unpack_neg]
  cases x.toModel.unpack <;> rfl

theorem inSafeRange_neg (x : Float) : inSafeRange (-x) = inSafeRange x := by
  rw [inSafeRange_eq, inSafeRange_eq, unpack_neg]
  cases x.toModel.unpack <;> rfl

end Reckoner.Number
