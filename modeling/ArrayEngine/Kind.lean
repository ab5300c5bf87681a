/-
The kinds of array, and the entry that a buffer keeps for each array it stores.
-/
import ArrayEngine.Size

namespace ArrayEngine

/-- what an array is, by its rank -/
inductive Kind where
  | vector
  | matrix
  | array3
  deriving DecidableEq, Repr

namespace Kind

def all : List Kind := [vector, matrix, array3]

/-- the number of extents -/
def rank : Kind → Nat
  | vector => 1
  | matrix => 2
  | array3 => 3

/-- the kind as messages name it -/
def name : Kind → String
  | vector => "vector"
  | matrix => "matrix"
  | array3 => "array3"

/-- the kind as records name it -/
def label : Kind → String
  | vector => "Vector"
  | matrix => "Matrix"
  | array3 => "Array3"

/-- the kind with the given label -/
def ofLabel? (s : String) : Option Kind := all.find? (·.label == s)

end Kind

/-- the entry for one stored array. The offset counts in the unit of the buffer that stores it; nothing ties the number
of extents to the kind -/
structure Item where
  kind : Kind
  offset : Nat
  shape : List Nat
  deriving DecidableEq, Repr

namespace Item

def elementCount (item : Item) : Except Fault Nat := Size.product item.shape

/-- the first extent: the rows of a matrix, the length of a vector -/
def rows (item : Item) : Nat := item.shape.headD 0

/-- the last extent; a vector is one column -/
def cols (item : Item) : Nat :=
  match item.kind with
  | .vector => 1
  | _ => item.shape.getLastD 0

end Item

/-- a list of extents as messages write it -/
def extentsText (extents : List Nat) : String :=
  "[" ++ ", ".intercalate (extents.map Nat.repr) ++ "]"

end ArrayEngine
