/-
How single-precision numbers are written.

The digits are those of `shortest`; a `Layout` says how they are set out. `plain` never uses an exponent and writes a
whole number without a point. `literal` keeps the text recognisable as a number with a fraction: it writes `.0` after a
whole number, and uses an exponent below 10^-4 and from 10^16 on.
-/
import ArrayEngine.Single.Decimal

namespace ArrayEngine

/-- how the digits of a number are set out -/
structure Layout where
  /-- the leading exponents that are written without an exponent part -/
  positional : Int → Bool
  /-- a whole number ends in `.0` -/
  wholePoint : Bool

namespace Layout

/-- no exponent, no point after a whole number -/
def plain : Layout := ⟨fun _ => true, false⟩

/-- a point or an exponent in every finite number; no exponent from 10^-4 up to 10^16 -/
def literal : Layout := ⟨fun e => decide (-4 ≤ e) && decide (e < 16), true⟩

/-- the decimal whose digits are `ds` and whose last digit counts `10 ^ e`, without an exponent -/
def writePositional (wholePoint : Bool) (ds : List Char) (e : Int) : List Char :=
  match e with
  | .ofNat k => ds ++ List.replicate k '0' ++ (if wholePoint then ['.', '0'] else [])
  | .negSucc k =>
    let padded := List.replicate (k + 2 - ds.length) '0' ++ ds
    let whole := padded.length - (k + 1)
    padded.take whole ++ '.' :: padded.drop whole

/-- an integer in decimal, with a minus sign if it is negative -/
def writeInt : Int → List Char
  | .ofNat n => Nat.toDigits 10 n
  | .negSucc n => '-' :: Nat.toDigits 10 (n + 1)

/-- the digits `ds` with a point after the first, times `10 ^ e` -/
def writeScientific (ds : List Char) (e : Int) : List Char :=
  ds.take 1 ++ (if ds.length ≤ 1 then [] else '.' :: ds.drop 1) ++ 'e' :: writeInt e

/-- a decimal in this layout -/
def writeDecimal (l : Layout) (d : Decimal) : List Char :=
  let ds := Nat.toDigits 10 d.significand
  let leading := d.exponent + ds.length - 1
  if l.positional leading then writePositional l.wholePoint ds d.exponent
  else writeScientific ds leading

end Layout

namespace Single

/-- a number in the given layout; a not-a-number has no sign -/
def write (l : Layout) (x : Single) : List Char :=
  if x.isNaN then "NaN".toList
  else
    (if x.negative then ['-'] else []) ++
      if x.isInfinite then "inf".toList
      else l.writeDecimal (if x.isZero then ⟨0, 0⟩ else shortest x.magnitude)

/-- a number with the fewest digits that read back, never with an exponent -/
def plainText (x : Single) : String := String.ofList (x.write .plain)

/-- a number as it stands in a program text -/
def literalText (x : Single) : String := String.ofList (x.write .literal)

end Single

end ArrayEngine
