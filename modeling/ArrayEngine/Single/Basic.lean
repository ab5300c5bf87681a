/-
Single-precision numbers, by bit pattern.

A pattern is a sign and a magnitude below 2^31. Magnitudes below `infinity` are the finite numbers in order of size, and
`units` gives the value of one as a whole number of 2^-149, the smallest positive number. So every question about a
finite number is a question about natural numbers. `nearest` is the way back: the magnitude closest to a quotient of
units, where a tie goes to the even pattern and everything too large goes to infinity.
-/

namespace ArrayEngine

/-- a single-precision number, by its bit pattern; equality is equality of patterns -/
structure Single where
  bits : UInt32
  deriving DecidableEq, Repr, Inhabited

namespace Single

/-- what a sign adds to a pattern -/
def signWeight : Nat := 0x80000000

/-- how many magnitudes there are from one power of two up to the next -/
def binade : Nat := 0x00800000

/-- how many units one is -/
def unitsInOne : Nat := Nat.pow 2 149

/-- the magnitude of infinity; the magnitudes above it are not numbers -/
def infinity : Nat := 0x7f800000

/-- the bit that marks a quiet not-a-number -/
def quietBit : Nat := 0x00400000

/-- the pattern without its sign -/
def magnitude (x : Single) : Nat := x.bits.toNat % signWeight

/-- the sign bit -/
def negative (x : Single) : Bool := decide (signWeight ≤ x.bits.toNat)

/-- the pattern with the given sign and magnitude -/
def ofMagnitude (negative : Bool) (m : Nat) : Single :=
  ⟨UInt32.ofNat (if negative then signWeight + m else m)⟩

def zero : Single := ⟨0⟩

def negZero : Single := ⟨0x80000000⟩

/-- the pattern an invalid operation answers with -/
def invalid : Single := ⟨0xffc00000⟩

def isNaN (x : Single) : Bool := decide (infinity < x.magnitude)

def isInfinite (x : Single) : Bool := x.magnitude == infinity

def isFinite (x : Single) : Bool := decide (x.magnitude < infinity)

def isZero (x : Single) : Bool := x.magnitude == 0

/-- a not-a-number with its quiet bit set, the rest of the pattern kept -/
def quieted (x : Single) : Single := ⟨x.bits ||| 0x00400000⟩

/-- the value of a finite magnitude, counted in units of 2^-149 -/
def unitsOf (m : Nat) : Nat :=
  if m < binade then m else (binade + m % binade) * Nat.pow 2 (m / binade - 1)

/-- the absolute value of a finite number, in units of 2^-149 -/
def units (x : Single) : Nat := unitsOf x.magnitude

/-- the value of a finite number, in units of 2^-149 -/
def value (x : Single) : Int := if x.negative then -(x.units : Int) else x.units

/-- the whole number nearest to a quotient; a half goes to the even neighbour -/
def halfEven (num den : Nat) : Nat :=
  let q := num / den
  let r := num % den
  if 2 * r < den then q else if den < 2 * r then q + 1 else q + q % 2

/-- the magnitude nearest to `num / den` units; a tie goes to the even pattern, and what is too large to infinity -/
def nearest (num den : Nat) : Nat :=
  let k := (num / den).log2 - 23
  min (k * binade + halfEven num (den * Nat.pow 2 k)) infinity

/-- comparison of numbers: a not-a-number equals nothing, and the two zeros are equal -/
def same (x y : Single) : Bool :=
  !x.isNaN && !y.isNaN && (x == y || (x.isZero && y.isZero))

/-- the 64-bit whole number nearest to `k` times a number, a half going away from zero; zero if it is not a number -/
def scaledToInt (x : Single) (k : Nat) : Int :=
  if x.isNaN then 0
  else
    let a : Nat := (2 * (x.units * k) + unitsInOne) / (2 * unitsInOne)
    if x.negative then max (-(a : Int)) Int64.minValue.toInt else min (a : Int) Int64.maxValue.toInt

end Single

end ArrayEngine
