/-
Arrays of numbers that own their elements or are a view of a window.

A view shares the numbers with the arena behind it: reading it reads the arena, and writing to it writes there.
Arithmetic and copies always give arrays that own their elements. An array is made, or bound to a window, only if the
number of its elements is the product of its extents.
-/
import ArrayEngine.Shape
import ArrayEngine.Kernel
import ArrayEngine.Memory.Store

namespace ArrayEngine

/-- where the elements of an array are -/
inductive Storage where
  | owned (data : List Single)
  | view (window : Window)
  deriving DecidableEq, Repr

/-- an array of numbers, row by row -/
structure Tensor where
  shape : Shape
  storage : Storage
  deriving DecidableEq, Repr

/-- why elements do not make an array -/
inductive LayoutError where
  | dataLength (len : Nat) (shape : List Nat)
  | ragged (row cols expected : Nat)
  deriving DecidableEq, Repr

def LayoutError.message : LayoutError → String
  | dataLength len shape => s!"array data length ({len}) does not match shape {extentsText shape}"
  | ragged row cols expected => s!"matrix row {row} has {cols} columns, expected {expected}"

/-- what can go wrong when elements are made an array -/
inductive LayoutFailure where
  | rejected (error : LayoutError)
  | fault (fault : Fault)
  deriving DecidableEq, Repr

instance : MonadLift (Except Fault) (Except LayoutFailure) := ⟨fun x => x.mapError .fault⟩

namespace Tensor

def kind (t : Tensor) : Kind := t.shape.kind

def extents (t : Tensor) : List Nat := t.shape.extents

def elementCount (t : Tensor) : Except Fault Nat := t.shape.elementCount

def isView (t : Tensor) : Bool :=
  match t.storage with
  | .owned _ => false
  | .view _ => true

def window? (t : Tensor) : Option Window :=
  match t.storage with
  | .owned _ => none
  | .view w => some w

/-- bytes of the array with its header -/
def byteSize (t : Tensor) : Except Fault Nat := do
  Size.mul Size.wordBytes (← Size.add t.kind.rank (← t.elementCount))

/-! ## Making arrays -/

def vector (data : List Single) : Tensor := ⟨.vector data.length, .owned data⟩

/-- the array of a shape with the given elements -/
def ofData (shape : Shape) (data : List Single) : Except LayoutFailure Tensor := do
  let count ← shape.elementCount
  if data.length = count then return ⟨shape, .owned data⟩
  else throw (.rejected (.dataLength data.length shape.extents))

/-- checks that every row has `cols` elements, counting the rows from `i` on -/
def checkRows (cols : Nat) (i : Nat) : List (List Single) → Except LayoutFailure Unit
  | [] => .ok ()
  | row :: rest =>
    if row.length = cols then checkRows cols (i + 1) rest
    else .error (.rejected (.ragged i row.length cols))

/-- the matrix with the given rows, which must be of one length. The memory for all of them is taken first -/
def ofRows (rows : List (List Single)) : Except LayoutFailure Tensor := do
  let cols := (rows.headD []).length
  Size.allocatable (← Size.mul rows.length cols)
  checkRows cols 0 rows
  ofData (.matrix rows.length cols) rows.flatten

/-- the array of a shape with all elements zero -/
def zeros (shape : Shape) : Except Fault Tensor := do
  let count ← shape.elementCount
  Size.allocatable count
  return ⟨shape, .owned (List.replicate count .zero)⟩

/-- refuses a window that has not as many numbers as a shape has elements -/
def checkWindow (shape : Shape) (w : Window) : Except Failure Unit := do
  let count ← shape.elementCount
  if w.len = count then return ()
  else throw (.refused (.shapeMismatch "bind" (.window w.len shape.extents)))

/-- the array made a view of a window -/
def bind (t : Tensor) (w : Window) : Except Failure Tensor := do
  checkWindow t.shape w
  return { t with storage := .view w }

/-- the view of a window as an array of the given kind and extents -/
def ofView (kind : Kind) (extents : List Nat) (w : Window) : Except Failure Tensor :=
  match Shape.ofExtents? kind extents with
  | some shape => do
    checkWindow shape w
    return ⟨shape, .view w⟩
  | none => .error (.refused (.shapeMismatch "view" (.rank kind.rank extents.length)))

/-! ## Reading and writing elements -/

/-- the elements, row by row -/
def data (t : Tensor) (s : Store) : Except Fault (List Single) :=
  match t.storage with
  | .owned data => .ok data
  | .view w => w.read s

/-- the elements replaced by what `f` makes of them: in the array itself, or in the arena behind it -/
def update (t : Tensor) (s : Store) (f : List Single → Except Fault (List Single)) :
    Except Fault (Store × Tensor) :=
  match t.storage with
  | .owned data => do return (s, { t with storage := .owned (← f data) })
  | .view w => do return (← w.update s f, t)

/-- all elements set to one value -/
def fill (t : Tensor) (s : Store) (value : Single) : Except Fault (Store × Tensor) :=
  t.update s fun data => .ok (data.map fun _ => value)

/-- one element set to a value -/
def setAt (t : Tensor) (s : Store) (i : Nat) (value : Single) : Except Fault (Store × Tensor) :=
  t.update s (Kernel.setAt i value)

/-- a copy that owns its elements -/
def copy (t : Tensor) (s : Store) : Except Fault Tensor := do return ⟨t.shape, .owned (← t.data s)⟩

/-- a row of a matrix -/
def row (t : Tensor) (s : Store) (i : Nat) : Except Fault (List Single) := do
  let data ← t.data s
  let cols := t.shape.rowLength
  let start ← Size.mul i cols
  let stop ← Size.mul (← Size.add i 1) cols
  if stop ≤ data.length then return (data.take stop).drop start else throw .outOfRange

/-- whether two arrays have the same extents and equal numbers -/
def same (t u : Tensor) (s : Store) : Except Fault Bool := do
  if t.shape = u.shape then
    let xs ← t.data s
    let ys ← u.data s
    return xs.length == ys.length && (xs.zip ys).all fun (x, y) => x.same y
  else return false

/-! ## Arithmetic -/

/-- every element of an array times the factor, as a vector -/
def times (t : Tensor) (s : Store) (factor : Single) : Except Fault Tensor := do
  let count ← t.elementCount
  return vector (← Kernel.scale (← t.data s) factor count)

/-- the sum of two vectors of one shape -/
def plus (t u : Tensor) (s : Store) : Except Fault Tensor := do
  if t.shape = u.shape then
    let lhs ← t.data s
    return vector (← Kernel.add lhs (← u.data s) lhs.length)
  else throw .lengthMismatch

/-- the rows of a matrix as one extent -/
def rows (t : Tensor) : Nat := t.extents.headD 0

/-- the product of a matrix and a vector -/
def product (m v : Tensor) (s : Store) : Except Fault Tensor := do
  let cols := m.shape.rowLength
  Kernel.agree cols (← v.elementCount)
  let matrix ← m.data s
  Size.allocatable m.rows
  return vector (← Kernel.matvec matrix m.rows cols (← v.data s) m.rows)

/-! ## Text -/

/-- the numbers of one row between brackets -/
def rowText (values : List Single) : String :=
  "[" ++ String.join (values.map fun x => " " ++ x.plainText) ++ " ]"

/-- a list cut into pieces of `n + 1` elements -/
def piecesOf (n : Nat) (xs : List Single) : List (List Single) :=
  match xs with
  | [] => []
  | x :: rest => (x :: rest.take n) :: piecesOf n (rest.drop n)
  termination_by xs.length
  decreasing_by simp only [List.length_drop, List.length_cons]; omega

/-- the array row by row, one row a line -/
def text (t : Tensor) (s : Store) : Except Fault String := do
  let data ← t.data s
  match t.shape, t.shape.rowLength with
  | .vector _, _ | _, 0 => return rowText data
  | _, n + 1 => return "\n".intercalate ((piecesOf n data).map rowText)

/-- the array with its extents, what it is and its elements -/
def debugText (t : Tensor) (s : Store) : Except Fault String := do
  let data := ", ".intercalate ((← t.data s).map Single.literalText)
  return "Array \x7b shape: " ++ extentsText t.extents ++ s!", view: {t.isView}, data: [" ++ data ++ "] \x7d"

end Tensor

end ArrayEngine
