/-
Decimals and single-precision numbers.

`Decimal.magnitude` rounds a decimal, once, to the nearest magnitude. `shortest` goes the other way: the decimal with
the fewest digits that reads back as the given magnitude. With n digits only the two neighbours of the value on the
n-digit grid can be nearest, so these two are tried for n = 1, 2, ... 9; the nearer one that reads back is taken, and of
two equally near ones the larger. Nine digits always suffice; the exact decimal stands behind them, so that what
`shortest` answers reads back by construction.
-/
import ArrayEngine.Single.Basic

namespace ArrayEngine

/-- the number `significand * 10 ^ exponent` -/
structure Decimal where
  significand : Nat
  exponent : Int
  deriving DecidableEq, Repr

namespace Decimal

/-- how many digits a natural number is written with -/
def digitCount (n : Nat) : Nat := (Nat.toDigits 10 n).length

/-- a decimal as a quotient of units of 2^-149: numerator and denominator -/
def quotient (d : Decimal) : Nat × Nat :=
  match d.exponent with
  | .ofNat k => (d.significand * Nat.pow 10 k * Single.unitsInOne, 1)
  | .negSucc k => (d.significand * Single.unitsInOne, Nat.pow 10 (k + 1))

/-- the exponent of the power of ten next above a positive decimal -/
def lead (d : Decimal) : Int := d.exponent + digitCount d.significand

/-- the magnitude nearest to a decimal. From 10^40 on this is infinity and below 10^-46 zero, without computing the
powers -/
def magnitude (d : Decimal) : Nat :=
  if d.significand = 0 then 0
  else if 40 < d.lead then Single.infinity
  else if d.lead < -45 then 0
  else Single.nearest d.quotient.1 d.quotient.2

end Decimal

namespace Single

/-- a number of units divided by `10 ^ e`: numerator and denominator -/
def gridQuotient (units : Nat) : Int → Nat × Nat
  | .ofNat k => (units, unitsInOne * Nat.pow 10 k)
  | .negSucc k => (units * Nat.pow 10 (k + 1), unitsInOne)

/-- the exponent of the leading digit of a positive number of units -/
def leadingExponent (units : Nat) : Int :=
  (Decimal.digitCount (units * Nat.pow 10 45 / unitsInOne) : Int) - 46

/-- the decimal `c * 10 ^ e`, where a power of ten on the n-digit grid is written with one digit -/
def gridPoint (n c : Nat) (e : Int) : Decimal := if c = Nat.pow 10 n then ⟨1, e + n⟩ else ⟨c, e⟩

/-- the one of two decimals that reads back as `m`; if both do, the lower one if that is the nearer one -/
def readingBack (m : Nat) (below above : Decimal) (belowNearer : Bool) : Option Decimal :=
  match below.magnitude == m, above.magnitude == m with
  | true, true => some (if belowNearer then below else above)
  | true, false => some below
  | false, true => some above
  | false, false => none

/-- the neighbour of magnitude `m` on the n-digit grid that reads back as `m`: the nearer one if both do, and the upper
one if they are equally near -/
def onGrid (m n : Nat) : Option Decimal :=
  let e := leadingExponent (unitsOf m) - n + 1
  let q := gridQuotient (unitsOf m) e
  readingBack m (gridPoint n (q.1 / q.2) e) (gridPoint n (q.1 / q.2 + 1) e) (decide (2 * (q.1 % q.2) < q.2))

/-- the value of a finite magnitude, digit for digit -/
def exactDecimal (m : Nat) : Decimal := ⟨unitsOf m * Nat.pow 5 149, -149⟩

/-- the decimal with the fewest digits that reads back as a finite positive magnitude -/
def shortest (m : Nat) : Decimal :=
  ((List.range' 1 9).findSome? (onGrid m)).getD (exactDecimal m)

end Single

end ArrayEngine
