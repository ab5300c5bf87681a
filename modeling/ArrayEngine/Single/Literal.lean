/-
How single-precision numbers are read.

A literal is an optional sign and then `inf`, `infinity` or `nan` in any case, or digits with an optional point (at
least one digit on one side of it) and an optional exponent. Nothing else may stand in the text. The value is the
decimal rounded once to the nearest number.
-/
import ArrayEngine.Single.Decimal

namespace ArrayEngine.Single

/-- the exponent part after its `e`: an optional sign and at least one digit -/
def readExponent (cs : List Char) : Option Int :=
  let digits (ds : List Char) : Option Nat :=
    if ds ≠ [] ∧ ds.all Char.isDigit then some (Nat.ofDigitChars 10 ds 0) else none
  match cs with
  | '+' :: ds => (digits ds).map Int.ofNat
  | '-' :: ds => (digits ds).map fun n => -(n : Int)
  | ds => (digits ds).map Int.ofNat

/-- digits with an optional point and an optional exponent part -/
def readDecimal (cs : List Char) : Option Decimal :=
  let whole := cs.takeWhile Char.isDigit
  let rest := cs.dropWhile Char.isDigit
  let (fraction, rest) :=
    match rest with
    | '.' :: r => (r.takeWhile Char.isDigit, r.dropWhile Char.isDigit)
    | r => ([], r)
  if whole.isEmpty && fraction.isEmpty then none
  else
    let decimal (e : Int) : Decimal := ⟨Nat.ofDigitChars 10 (whole ++ fraction) 0, e - fraction.length⟩
    match rest with
    | [] => some (decimal 0)
    | c :: r => if c = 'e' ∨ c = 'E' then (readExponent r).map decimal else none

/-- a literal without its sign -/
def readMagnitude (cs : List Char) : Option Nat :=
  let word := cs.map Char.toLower
  if word = "inf".toList ∨ word = "infinity".toList then some infinity
  else if word = "nan".toList then some (infinity + quietBit)
  else (readDecimal cs).map Decimal.magnitude

/-- a literal -/
def read (cs : List Char) : Option Single :=
  match cs with
  | '-' :: r => (readMagnitude r).map (ofMagnitude true)
  | '+' :: r => (readMagnitude r).map (ofMagnitude false)
  | r => (readMagnitude r).map (ofMagnitude false)

/-- a literal that stands for a finite number -/
def readFinite (cs : List Char) : Option Single := (read cs).filter isFinite

end ArrayEngine.Single
