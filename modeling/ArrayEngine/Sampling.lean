/-
Sampling from a normal distribution.

Numbers are drawn in pairs: two words of a generator give two uniform numbers, and these give two normal ones. If an odd
number of them is asked for, the last one is left out, but both words are drawn. A sample that no allocation can hold is
not begun.
-/
import ArrayEngine.Tensor

namespace ArrayEngine.Sampling

/-- the functions that the sampling is built on -/
structure Elementary where
  ln : Single → Single
  sqrt : Single → Single
  cos : Single → Single
  sin : Single → Single

/-- the functions of the machine -/
def Elementary.machine : Elementary :=
  let lift (f : Float32 → Float32) (x : Single) : Single := ⟨(f (Float32.ofBits x.bits)).toBits⟩
  ⟨lift Float32.log, lift Float32.sqrt, lift Float32.cos, lift Float32.sin⟩

/-- the uniform number of a word: its upper 24 bits as a fraction -/
def uniform (word : UInt32) : Single :=
  Single.ofMagnitude false (Single.nearest ((word.toNat / 0x100) * Single.unitsInOne) 0x1000000)

/-- the least positive number with full precision -/
def leastNormal : Single := ⟨0x00800000⟩

/-- the larger of a number and `leastNormal` -/
def clamp (x : Single) : Single := if leastNormal.units ≤ x.units then x else leastNormal

def two : Single := ⟨0x40000000⟩

def minusTwo : Single := ⟨0xc0000000⟩

/-- half the circumference of the unit circle -/
def pi : Single := ⟨0x40490fdb⟩

/-- the two normal numbers of two words -/
def pair (f : Elementary) (std : Single) (a b : UInt32) : Single × Single :=
  let r := f.sqrt (minusTwo * f.ln (clamp (uniform a)))
  let theta := two * pi * uniform b
  (r * f.cos theta * std, r * f.sin theta * std)

/-- `len` normal numbers from a stream of words, from position `pos` on, and the position after the last word drawn -/
def numbers (f : Elementary) (std : Single) (words : Nat → UInt32) : Nat → Nat → List Single × Nat
  | 0, pos => ([], pos)
  | 1, pos => ([(pair f std (words pos) (words (pos + 1))).1], pos + 2)
  | len + 2, pos =>
    let (x, y) := pair f std (words pos) (words (pos + 1))
    let (rest, pos) := numbers f std words len (pos + 2)
    (x :: y :: rest, pos)

/-- a sample of `len` numbers. The memory for all of them is taken before the first word is drawn -/
def sample (f : Elementary) (std : Single) (words : Nat → UInt32) (len pos : Nat) :
    Except Fault (List Single × Nat) := do
  Size.allocatable len
  return numbers f std words len pos

/-- an array filled with a sample, row by row, and the position after the last word drawn -/
def tensor (f : Elementary) (std : Single) (words : Nat → UInt32) (shape : Shape) (pos : Nat) :
    Except Fault (Tensor × Nat) := do
  let count ← shape.elementCount
  let (data, pos) ← sample f std words count pos
  return (⟨shape, .owned data⟩, pos)

end ArrayEngine.Sampling
