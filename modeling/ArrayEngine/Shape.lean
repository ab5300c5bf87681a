/-
Shapes: the extents of a vector, a matrix or a rank-3 array.

A `Header` is how extents are recorded in memory, one word for each; what fits is read back as it was.
-/
import ArrayEngine.Error

namespace ArrayEngine

namespace Header

/-- the words that record a list of extents, each of which has to fit a word -/
def encode (extents : List Nat) : Except EngineError (List UInt32) :=
  extents.mapM fun n =>
    if n < UInt32.size then .ok (UInt32.ofNat n) else .error (.shapeMismatch "insert" (.extentRange n))

/-- the extents that words record -/
def decode (words : List UInt32) : List Nat := words.map UInt32.toNat

theorem decode_encode {extents : List Nat} {words : List UInt32} (h : encode extents = .ok words) :
    decode words = extents := by
  induction extents generalizing words with
  | nil => cases h; rfl
  | cons n rest ih =>
    simp only [encode, List.mapM_cons] at h
    split at h
    · next hn =>
      cases hrest : encode rest with
      | error e =>
        simp only [encode] at hrest
        rw [hrest] at h
        cases h
      | ok ws =>
        have hih := ih hrest
        simp only [encode] at hrest
        rw [hrest] at h
        cases h
        exact congr (congrArg List.cons (UInt32.toNat_ofNat_of_lt hn)) hih
    · cases h

end Header

/-- the extents of an array -/
inductive Shape where
  | vector (len : Nat)
  | matrix (rows cols : Nat)
  | array3 (depth rows cols : Nat)
  deriving DecidableEq, Repr

namespace Shape

def kind : Shape → Kind
  | vector .. => .vector
  | matrix .. => .matrix
  | array3 .. => .array3

/-- the extents, the outermost first -/
def extents : Shape → List Nat
  | vector len => [len]
  | matrix rows cols => [rows, cols]
  | array3 depth rows cols => [depth, rows, cols]

/-- the shape of a kind with the given extents, if they are as many as its rank -/
def ofExtents? : Kind → List Nat → Option Shape
  | .vector, [len] => some (.vector len)
  | .matrix, [rows, cols] => some (.matrix rows cols)
  | .array3, [depth, rows, cols] => some (.array3 depth rows cols)
  | _, _ => none

/-- the number of elements -/
def elementCount (s : Shape) : Except Fault Nat := Size.product s.extents

/-- the number of elements in a row -/
def rowLength : Shape → Nat
  | vector len => len
  | matrix _ cols | array3 _ _ cols => cols

end Shape

end ArrayEngine
