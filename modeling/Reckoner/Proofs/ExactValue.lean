/-
  Reckoner/Proofs/ExactValue.lean
  ===============================
  **What a double is worth.**  A finite double is a significand times a power of two,
  so it has an exact rational value (`valueOf`).  Not every significand goes with every
  exponent: it has 53 bits, and fewer only where the exponent is the least one there is
  (`Canonical`).  Every finite double is taken apart into such a pair
  (`canonical_unpack`), and every such pair survives packing unless its exponent is
  too large, and then it becomes infinite (`unpack_pack_canonical`,
  `unpack_pack_infinite`).

  In canonical form exponents are compared before significands.  In exact values this
  comparison is the plain one, so a double is in the safe range if and only if it is
  finite and its magnitude is 2^53 - 1 at most (`inSafeRange_iff`).
-/
import Reckoner.Proofs.Binary64

namespace Reckoner.Number

open Float.Model Float.Model.UnpackedFloat

/-! ### Canonical pairs -/

/-- A significand and an exponent that a double can have, but for the upper end of the
    exponents. -/
structure Canonical (significand : Nat) (exponent : Int) : Prop where
  bits : significand < 2 ^ 53
  least : -1074 ≤ exponent
  full : 2 ^ 52 ≤ significand ∨ exponent = -1074

theorem toNat_leading_append (v : BitVec 52) : (1#1 ++ v).toNat = 2 ^ 52 + v.toNat := by
  have hv : v.toNat < 2 ^ 52 := v.isLt
  rw [BitVec.toNat_append, ← Nat.shiftLeft_add_eq_or_of_lt hv, Nat.shiftLeft_eq]
  rfl

theorem canonical_unpack_bits {b : BitVec Format.binary64.numBits} {s : Sign} {m : Nat} {e : Int}
    {hm : 0 < m} (h : UnpackedFloat.unpack Format.binary64 b = .finite s m e hm) :
    Canonical m e := by
  have hmantissa : (unpackMantissa b : BitVec 52).toNat < 2 ^ 52 := (unpackMantissa b).isLt
  simp only [UnpackedFloat.unpack] at h
  split at h
  · split at h <;> cases h
  · split at h
    · next hsubnormal =>
      split at h
      · cases h
      · injection h with _ hm' he'
        rw [hsubnormal] at he'
        obtain rfl : e = -1074 := he'.symm
        exact ⟨by rw [← hm']; omega, Int.le_refl _, Or.inr rfl⟩
    · next hnormal =>
      injection h with _ hm' he'
      rw [toNat_leading_append] at hm'
      change ((unpackExponent b : BitVec 11).toNat : Int) - (1023 + 52) = e at he'
      have hpos : (unpackExponent b : BitVec 11).toNat ≠ 0 := fun hzero =>
        hnormal (BitVec.eq_of_toNat_eq hzero)
      exact ⟨by omega, by omega, Or.inl (by omega)⟩

/-- **Every finite double is canonical.** -/
theorem canonical_unpack {x : Float} {s : Sign} {m : Nat} {e : Int} {hm : 0 < m}
    (h : x.toModel.unpack = .finite s m e hm) : Canonical m e :=
  canonical_unpack_bits h

/-! ### Packing -/

theorem unpack_pack_subnormal {s : Sign} {m : Nat} (hpos : 0 < m) (hm : m < 2 ^ 52) :
    (Float.Model.pack (.finite s m (-1074) hpos)).unpack = .finite s m (-1074) hpos := by
  have hbits : m.log2 + 1 ≠ Format.binary64.mantissaBits := by
    have hlog : m.log2 < 52 := (Nat.log2_lt (by omega)).mpr hm
    show m.log2 + 1 ≠ 53
    omega
  have hpack : UnpackedFloat.pack Format.binary64 (.finite s m (-1074) hpos) =
      packComponents Format.binary64 s 0#11 (BitVec.ofNat 52 m) := by
    simp only [UnpackedFloat.pack, if_neg hbits]
    rfl
  have hnotInfinite : (0#11 : BitVec 11) ≠ -1#11 := by decide
  have htoNat : (BitVec.ofNat 52 m).toNat = m := by
    rw [BitVec.toNat_ofNat, Nat.mod_eq_of_lt hm]
  have hnotZero : BitVec.ofNat 52 m ≠ 0#52 := by
    intro h
    have := congrArg BitVec.toNat h
    rw [htoNat] at this
    change m = 0 at this
    omega
  show UnpackedFloat.unpack Format.binary64 (UnpackedFloat.pack Format.binary64 _) = _
  rw [hpack, UnpackedFloat.unpack]
  simp only [unpackMantissa_packComponents, unpackExponent_packComponents,
    unpackSign_packComponents, Sign.ofBitVec_toBitVec]
  rw [if_neg hnotInfinite, if_pos trivial, dif_neg hnotZero]
  exact finite_congr htoNat rfl

theorem unpack_pack_canonical {s : Sign} {m : Nat} {e : Int} (h : Canonical m e) (he : e ≤ 971)
    (hpos : 0 < m) : (Float.Model.pack (.finite s m e hpos)).unpack = .finite s m e hpos := by
  by_cases hfull : 2 ^ 52 ≤ m
  · exact unpack_pack ⟨hfull, h.bits⟩ h.least he
  · obtain rfl : e = -1074 := h.full.resolve_left hfull
    exact unpack_pack_subnormal hpos (by omega)

/-- A number whose exponent is too large becomes infinite. -/
theorem unpack_pack_infinite {s : Sign} {m : Nat} {e : Int} (he : 971 < e) (hpos : 0 < m) :
    (Float.Model.pack (.finite s m e hpos)).unpack = .infinity s := by
  have hlarge : 2 ^ Format.binary64.exponentBits ≤
      (e + Format.binary64.exponentBias + Format.binary64.mantissaBitsWithoutImplicit).toNat + 1 := by
    show 2048 ≤ (e + 1023 + 52).toNat + 1
    omega
  have hpack : UnpackedFloat.pack Format.binary64 (.finite s m e hpos) =
      packedInfinity Format.binary64 s := by
    simp only [UnpackedFloat.pack, if_pos hlarge]
  show UnpackedFloat.unpack Format.binary64 (UnpackedFloat.pack Format.binary64 _) = _
  rw [hpack, packedInfinity, UnpackedFloat.unpack]
  simp only [unpackMantissa_packComponents, unpackExponent_packComponents,
    unpackSign_packComponents, Sign.ofBitVec_toBitVec]
  rw [if_pos trivial]
  exact if_pos rfl

/-! ### Exact values -/

/-- A magnitude with a sign. -/
def signed : Sign → ℚ → ℚ
  | .positive, v => v
  | .negative, v => -v

theorem abs_signed (s : Sign) (v : ℚ) : |signed s v| = |v| := by
  cases s
  · exact abs_neg v
  · rfl

theorem signed_neg (s : Sign) (v : ℚ) : signed (-s) v = -signed s v := by
  cases s
  · exact (neg_neg v).symm
  · rfl

theorem signed_signed (s : Sign) (v : ℚ) : signed s (signed s v) = v := by
  cases s
  · exact neg_neg v
  · rfl

theorem signed_mul (s : Sign) (v w : ℚ) : signed s v * w = signed s (v * w) := by
  cases s
  · exact neg_mul v w
  · rfl

theorem signed_mul_signed (s s' : Sign) (v w : ℚ) :
    signed s v * signed s' w = signed (s * s') (v * w) := by
  cases s <;> cases s'
  · exact neg_mul_neg v w
  · exact neg_mul v w
  · exact mul_neg v w
  · rfl

theorem signed_div_signed (s s' : Sign) (v w : ℚ) :
    signed s v / signed s' w = signed (s / s') (v / w) := by
  cases s <;> cases s'
  · exact neg_div_neg_eq v w
  · exact neg_div w v
  · exact div_neg v
  · rfl

theorem cast_apply (s : Sign) (i : ℤ) : ((s.apply i : ℤ) : ℚ) = signed s i := by
  cases s
  · exact Int.cast_neg i
  · rfl

/-- The exact value of an unpacked number, zero for what has none. -/
def unpackedValue : UnpackedFloat → ℚ
  | .finite s m e _ => signed s (m * 2 ^ e)
  | _ => 0

@[simp] theorem unpackedValue_zero (s : Sign) : unpackedValue (.zero s) = 0 := rfl

theorem unpackedValue_finite (s : Sign) {m : Nat} {e : Int} (hm : 0 < m) :
    unpackedValue (.finite s m e hm) = signed s (m * 2 ^ e) := rfl

/-- The exact value of a finite double. -/
def valueOf (x : Float) : ℚ := unpackedValue x.toModel.unpack

theorem unpackedValue_neg (u : UnpackedFloat) : unpackedValue u.neg = -unpackedValue u := by
  cases u with
  | finite s m e hm => exact signed_neg s _
  | _ => exact neg_zero.symm

theorem abs_unpackedValue {s : Sign} {m : Nat} {e : Int} {hm : 0 < m} :
    |unpackedValue (.finite s m e hm)| = m * (2 : ℚ) ^ e := by
  rw [unpackedValue_finite, abs_signed]
  exact abs_of_nonneg (by positivity)

/-- A canonical pair with a negative exponent is below 2^52, one with a positive
    exponent is at least 2^53. -/
theorem Canonical.le_iff {m : Nat} {e : Int} (h : Canonical m e) :
    ((compare e 0).then (compare m safeInteger)).isLE = true ↔
      (m : ℚ) * 2 ^ e ≤ 2 ^ 53 - 1 := by
  have hbits : (m : ℚ) < 2 ^ 53 := by exact_mod_cast h.bits
  rcases Int.lt_trichotomy e 0 with hneg | rfl | hpos
  · have hcompare : compare e 0 = .lt := Int.compare_eq_lt.mpr hneg
    rw [hcompare]
    refine iff_of_true rfl ?_
    have hhalf : (2 : ℚ) ^ e ≤ 2 ^ (-1 : ℤ) := zpow_le_zpow_right₀ (by norm_num) (by omega)
    calc (m : ℚ) * 2 ^ e ≤ 2 ^ 53 * 2 ^ (-1 : ℤ) := by gcongr
      _ ≤ 2 ^ 53 - 1 := by norm_num
  · have hcompare : compare (0 : Int) 0 = .eq := rfl
    rw [hcompare, Ordering.eq_then, Nat.isLE_compare, safeInteger_eq, zpow_zero, mul_one,
      ← Nat.cast_le (α := ℚ)]
    norm_num
  · have hcompare : compare e 0 = .gt := Int.compare_eq_gt.mpr hpos
    rw [hcompare]
    refine iff_of_false (fun h => nomatch h) (not_le.mpr ?_)
    have hfull : (2 : ℚ) ^ 52 ≤ m := by
      exact_mod_cast h.full.resolve_right (by omega)
    have htwo : (2 : ℚ) ^ (1 : ℤ) ≤ 2 ^ e := zpow_le_zpow_right₀ (by norm_num) (by omega)
    calc (2 : ℚ) ^ 53 - 1 < 2 ^ 52 * (2 : ℚ) ^ (1 : ℤ) := by norm_num
      _ ≤ (m : ℚ) * 2 ^ e := by gcongr

/-- A finite double of magnitude 2^53 - 1 at most. -/
def Safe (x : Float) : Prop := x.isFinite = true ∧ |valueOf x| ≤ 2 ^ 53 - 1

/-- **The safe range holds the safe doubles**, and no others. -/
theorem inSafeRange_iff {x : Float} : inSafeRange x = true ↔ Safe x := by
  rw [inSafeRange_eq, Safe, valueOf]
  change _ ↔ x.toModel.unpack.isFinite = true ∧ _
  cases hx : x.toModel.unpack with
  | notANumber => simp [unpackedInRange, UnpackedFloat.isFinite]
  | infinity s => simp [unpackedInRange, UnpackedFloat.isFinite]
  | zero s =>
    refine iff_of_true rfl ⟨rfl, ?_⟩
    norm_num
  | finite s m e hm =>
    rw [unpackedInRange, (canonical_unpack hx).le_iff, abs_unpackedValue]
    exact (and_iff_right rfl).symm

end Reckoner.Number
