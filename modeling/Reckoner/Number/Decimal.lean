/-
  Reckoner/Number/Decimal.lean
  ============================
  **Decimal numbers and the doubles nearest to them.**  A decimal is a
  coefficient and a power of ten.  Its double is the binary64 number nearest to
  it, the one with the even significand on a tie, and infinity from
  2^1024 - 2^970 on.

  The rounding is the reference one of `Float.Model`, not a fast path beside it,
  so what a proof learns about that function holds of every literal.  It stops
  early on exponents that can only give zero or infinity, so no huge power of
  ten is ever formed.
-/
namespace Reckoner.Number

/-- The number `coefficient * 10 ^ exponent`. -/
structure Decimal where
  coefficient : Nat
  exponent : Int
deriving DecidableEq, Repr

/-- The double nearest to a decimal. -/
def Decimal.toFloat (d : Decimal) : Float :=
  .ofModel (.ofScientific d.coefficient d.exponent)

/-- The double nearest to an integer, an infinite one where it is too large. -/
def ofInt (i : Int) : Float :=
  let magnitude := (Decimal.mk i.natAbs 0).toFloat
  if i < 0 then -magnitude else magnitude

end Reckoner.Number
