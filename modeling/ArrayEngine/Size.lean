/-
Sizes and offsets: natural numbers below 2^64.

Arithmetic on them is exact; a result that no longer fits is a `Fault`, as is every use of memory that its owner did not
check beforehand. A fault is a broken promise of the caller, not an answer: it carries no message.
-/

namespace ArrayEngine

/-- a promise of the caller that does not hold -/
inductive Fault where
  /-- a size or an offset is not below 2^64 -/
  | overflow
  /-- a range reaches outside the memory, or ends before it starts -/
  | outOfRange
  /-- operands whose lengths must agree do not -/
  | lengthMismatch
  /-- more memory than an address space holds -/
  | capacity
  deriving DecidableEq, Repr

namespace Size

/-- sizes are below this -/
def bound : Nat := 0x10000000000000000

/-- a number, if it is a size -/
def checked (n : Nat) : Except Fault Nat := if n < bound then .ok n else .error .overflow

def add (a b : Nat) : Except Fault Nat := checked (a + b)

def mul (a b : Nat) : Except Fault Nat := checked (a * b)

/-- the product of a list of extents, multiplied from left to right. Every partial product has to be a size, also where
a later extent is zero -/
def product (extents : List Nat) : Except Fault Nat := extents.foldlM mul 1

/-- bytes in a word -/
def wordBytes : Nat := 4

/-- one allocation takes fewer bytes than this -/
def allocationBound : Nat := 0x8000000000000000

/-- the memory that one allocation can take, in words -/
def allocatable (words : Nat) : Except Fault Unit :=
  if wordBytes * words < allocationBound then .ok () else .error .capacity

/-- a size as it is read: an optional plus sign, then digits -/
def read (cs : List Char) : Option Nat :=
  let digits := match cs with
    | '+' :: r => r
    | r => r
  if digits ≠ [] ∧ digits.all Char.isDigit then
    let n := Nat.ofDigitChars 10 digits 0
    if n < bound then some n else none
  else none

/-- a size as it is written -/
def write (n : Nat) : List Char := Nat.toDigits 10 n

end Size

end ArrayEngine
