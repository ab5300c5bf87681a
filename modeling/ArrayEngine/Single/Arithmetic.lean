/-
Product and sum of single-precision numbers: the exact result in whole units, rounded once.

The rules beside the rounding: a not-a-number operand is passed on, the left one first; the product of a zero and an
infinity and the sum of two opposite infinities are `invalid`; an exact sum of zero is -0.0 only if both operands are
negative. `dot` adds the products from left to right, starting from -0.0, which is the neutral element of `add`.
-/
import ArrayEngine.Single.Basic

namespace ArrayEngine.Single

/-- the not-a-number that an operation passes on, if an operand is one -/
def passedOn (x y : Single) : Option Single :=
  if x.isNaN then some x.quieted else if y.isNaN then some y.quieted else none

def mul (x y : Single) : Single :=
  match passedOn x y with
  | some r => r
  | none =>
    let negative := x.negative != y.negative
    if x.isInfinite || y.isInfinite then
      if x.isZero || y.isZero then invalid else ofMagnitude negative infinity
    else ofMagnitude negative (nearest (x.units * y.units) unitsInOne)

/-- the number nearest to a sum of whole units, with the sign that a zero sum takes -/
def ofSum (s : Int) (zeroNegative : Bool) : Single :=
  if s = 0 then ofMagnitude zeroNegative 0
  else ofMagnitude (decide (s < 0)) (nearest s.natAbs 1)

def add (x y : Single) : Single :=
  match passedOn x y with
  | some r => r
  | none =>
    if x.isInfinite then
      if y.isInfinite && x.negative != y.negative then invalid else x
    else if y.isInfinite then y
    else ofSum (x.value + y.value) (x.negative && y.negative)

instance : Mul Single := ⟨mul⟩

instance : Add Single := ⟨add⟩

/-- the sum of a list of numbers from left to right, starting from -0.0 -/
def sum (xs : List Single) : Single := xs.foldl (· + ·) negZero

/-- the sum of the products of two lists, as far as the shorter one goes -/
def dot (xs ys : List Single) : Single := sum (xs.zipWith (· * ·) ys)

end ArrayEngine.Single
