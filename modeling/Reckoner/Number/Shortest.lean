/-
  Reckoner/Number/Shortest.lean
  =============================
  **The shortest decimal that reads back.**  Among the decimals whose nearest
  double is a given one, `shortest` picks the one with the fewest digits, of
  those the nearest, and on a tie the one with the even last digit.

  A double has an exact decimal expansion (`exactDecimal`).  The search cuts it
  to one digit, then two, and so on.  On each grid only the two neighbours of
  the exact value matter: if any decimal of that many digits reads back, so does
  one of them.  The exact expansion itself reads back, so the search has an
  answer, and what it returns reads back by construction.
-/
import Reckoner.Number.Decimal

namespace Reckoner.Number

/-- The number `significand * 2 ^ exponent` as a decimal. -/
def exactDecimal (significand : Nat) (exponent : Int) : Decimal :=
  if 0 ≤ exponent then ⟨significand * Nat.pow 2 exponent.toNat, 0⟩
  else ⟨significand * Nat.pow 5 (-exponent).toNat, exponent⟩

def digitsOf (n : Nat) : List Char :=
  Nat.toDigits 10 n

/-- The two neighbours of a decimal on the grid that drops its last `cut` digits,
    the nearer one first and the even one on a tie. -/
def Decimal.neighbours (d : Decimal) (cut : Nat) : List Decimal :=
  let unit := Nat.pow 10 cut
  let below := d.coefficient / unit
  let lower : Decimal := ⟨below, d.exponent + cut⟩
  let upper : Decimal := ⟨below + 1, d.exponent + cut⟩
  match compare (2 * (d.coefficient % unit)) unit with
  | .lt => [lower, upper]
  | .gt => [upper, lower]
  | .eq => if below % 2 == 0 then [lower, upper] else [upper, lower]

/-- The first decimal that reads back as `x`, from the coarsest grid of `exact`
    to the finest. -/
def searchShortest (x : Float) (exact : Decimal) : Decimal :=
  let digits := (digitsOf exact.coefficient).length
  let found := (List.range digits).findSome? fun kept =>
    (exact.neighbours (digits - 1 - kept)).find? fun d => d.toFloat == x
  found.getD exact

/-- The shortest decimal of the positive double `significand * 2 ^ exponent`. -/
def shortest (significand : Nat) (exponent : Int) (positive : 0 < significand) : Decimal :=
  searchShortest (.ofModel (.pack (.finite .positive significand exponent positive)))
    (exactDecimal significand exponent)

end Reckoner.Number
