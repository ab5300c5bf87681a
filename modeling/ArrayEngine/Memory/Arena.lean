/-
Arenas: words that only grow in number.

An arena is appended to, read and written by ranges of words. A number stands in one word, as its pattern. Every range
is checked: a range that ends outside the arena is a fault and leaves the arena as it is.
-/
import ArrayEngine.Single.Basic
import ArrayEngine.Size
import ArrayEngine.Memory.Bytes

namespace ArrayEngine

/-- a growing sequence of words -/
structure Arena where
  words : Array UInt32
  deriving DecidableEq, Repr

namespace Arena

def empty : Arena := ⟨#[]⟩

def size (a : Arena) : Nat := a.words.size

def byteSize (a : Arena) : Nat := Size.wordBytes * a.size

/-- the arena with `count` more words, all zero, and the offset of the first of them -/
def append (a : Arena) (count : Nat) : Except Fault (Nat × Arena) := do
  let size ← Size.add a.size count
  Size.allocatable size
  return (a.size, ⟨a.words ++ Array.replicate count 0⟩)

/-- checks that `len` words from `offset` on are in the arena -/
def checkRange (a : Arena) (offset len : Nat) : Except Fault Unit := do
  let stop ← Size.add offset len
  if stop ≤ a.size then return () else throw .outOfRange

/-- the `len` words from `offset` on -/
def read (a : Arena) (offset len : Nat) : Except Fault (List UInt32) := do
  a.checkRange offset len
  return (a.words.extract offset (offset + len)).toList

/-- the words from `start` up to `stop` -/
def slice (a : Arena) (start stop : Nat) : Except Fault (List UInt32) :=
  if start ≤ stop ∧ stop ≤ a.size then .ok (a.words.extract start stop).toList else .error .outOfRange

/-- an array with the values of a list from position `i` on, as far as it reaches -/
def overwrite (words : Array UInt32) (i : Nat) : List UInt32 → Array UInt32
  | [] => words
  | v :: vs => overwrite (words.setIfInBounds i v) (i + 1) vs

/-- the arena with the given words from `offset` on -/
def write (a : Arena) (offset : Nat) (values : List UInt32) : Except Fault Arena := do
  a.checkRange offset values.length
  return ⟨overwrite a.words offset values⟩

/-- the `len` numbers from `offset` on -/
def floats (a : Arena) (offset len : Nat) : Except Fault (List Single) := do
  return (← a.read offset len).map Single.mk

/-- the arena with the given numbers from `offset` on -/
def writeFloats (a : Arena) (offset : Nat) (values : List Single) : Except Fault Arena :=
  a.write offset (values.map Single.bits)

/-- all bytes of the arena -/
def bytes (a : Arena) : List UInt8 := Bytes.ofWords a.words.toList

/-- the arena with the words of the given bytes in place of its own -/
def ofBytes (bytes : List UInt8) : Arena := ⟨(Bytes.toWords bytes).toArray⟩

/-- the bytes from byte `start` on -/
def readBytes (a : Arena) (start len : Nat) : Except Fault (List UInt8) := do
  let stop ← Size.add start len
  if stop ≤ a.byteSize then return (a.bytes.drop start).take len else throw .outOfRange

/-- the arena with the given bytes from byte `start` on -/
def writeBytes (a : Arena) (start : Nat) (values : List UInt8) : Except Fault Arena := do
  let stop ← Size.add start values.length
  if stop ≤ a.byteSize then return ofBytes (a.bytes.take start ++ values ++ a.bytes.drop stop)
  else throw .outOfRange

/-- whether two arenas hold the same words -/
def same (a b : Arena) : Bool := a.words == b.words

end Arena

end ArrayEngine
