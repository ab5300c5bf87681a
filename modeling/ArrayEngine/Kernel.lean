/-
The numeric routines on lists of numbers.

Each fills a room of a given size and refuses operands whose lengths do not fit, before it computes anything. The
product of a matrix without columns is +0.0 in every row; all other rows are `dot` products.
-/
import ArrayEngine.Single.Arithmetic
import ArrayEngine.Size

namespace ArrayEngine.Kernel

/-- refuses lengths that do not agree -/
def agree (a b : Nat) : Except Fault Unit := if a = b then .ok () else .error .lengthMismatch

/-- one number replaced by another value -/
def setAt (i : Nat) (value : Single) (data : List Single) : Except Fault (List Single) :=
  if i < data.length then .ok (data.set i value) else .error .outOfRange

/-- every number times the factor -/
def scale (src : List Single) (factor : Single) (room : Nat) : Except Fault (List Single) := do
  agree src.length room
  return src.map (· * factor)

/-- the sums of corresponding numbers -/
def add (lhs rhs : List Single) (room : Nat) : Except Fault (List Single) := do
  agree lhs.length rhs.length
  agree lhs.length room
  return lhs.zipWith (· + ·) rhs

/-- the sum of the products of corresponding numbers -/
def dot (lhs rhs : List Single) : Except Fault Single := do
  agree lhs.length rhs.length
  return Single.dot lhs rhs

/-- the first `rows` runs of `cols` numbers -/
def rowsOf (cols : Nat) : Nat → List Single → List (List Single)
  | 0, _ => []
  | rows + 1, data => data.take cols :: rowsOf cols rows (data.drop cols)

/-- the products of the rows of a matrix with a vector -/
def matvec (matrix : List Single) (rows cols : Nat) (vector : List Single) (room : Nat) :
    Except Fault (List Single) := do
  agree matrix.length (← Size.mul rows cols)
  agree vector.length cols
  agree room rows
  if cols = 0 then return List.replicate rows .zero
  else return (rowsOf cols rows matrix).map (Single.dot · vector)

end ArrayEngine.Kernel
