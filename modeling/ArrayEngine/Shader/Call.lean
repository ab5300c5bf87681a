/-
Calls to the shader routines, with their text.

A call names a routine and the element offsets and sizes it works on. `render` writes it as an expression, with sizes as
`12u` and the factor as a literal; `read` takes such a text apart again, leniently: blanks around the parts and
semicolons at the end do not matter.

`written`, `gathered` and `extent` say what a call touches: the range it writes, where invocation i writes element i
only; the range that every invocation reads as a whole, which only a product has; and one past the highest element it
touches.
-/
import ArrayEngine.Single.Text
import ArrayEngine.Single.Literal
import ArrayEngine.Text.Blank
import ArrayEngine.Size

namespace ArrayEngine.Shader

/-- a call to one of the routines -/
inductive Call where
  | scale (dest src len : Nat) (factor : Single)
  | product (dest matrix vector rows cols : Nat)
  | add (dest lhs rhs len : Nat)
  deriving DecidableEq, Repr

/-- a range of elements, from `start` up to but not including `stop` -/
structure Range where
  start : Nat
  stop : Nat
  deriving DecidableEq, Repr

/-- whether two ranges overlap -/
def Range.overlaps (a b : Range) : Bool := decide (a.start < b.stop) && decide (b.start < a.stop)

namespace Call

/-- the routine a call runs -/
def routine : Call → String
  | scale .. => "multiplyVectorScalar"
  | product .. => "multiplyMatrixVector"
  | add .. => "addVectors"

/-- a size as an argument -/
def sizeArgument (n : Nat) : List Char := Size.write n ++ ['u']

/-- the arguments of a call, in order -/
def arguments : Call → List (List Char)
  | scale dest src len factor => [dest, src, len].map sizeArgument ++ [factor.write .literal]
  | product dest matrix vector rows cols => [dest, matrix, vector, rows, cols].map sizeArgument
  | add dest lhs rhs len => [dest, lhs, rhs, len].map sizeArgument

/-- a call as an expression -/
def renderChars (c : Call) : List Char :=
  c.routine.toList ++ '(' :: [',', ' '].intercalate c.arguments ++ [')']

def render (c : Call) : String := String.ofList c.renderChars

/-- a size as an argument: a size followed by `u` -/
def readSizeArgument (cs : List Char) : Option Nat := (Text.dropLast? 'u' cs).bind Size.read

/-- the call to a routine with the given arguments -/
def ofArguments (routine : List Char) (args : List (List Char)) : Option Call :=
  if routine = "multiplyVectorScalar".toList then
    match args with
    | [dest, src, len, factor] => do
      return scale (← readSizeArgument dest) (← readSizeArgument src) (← readSizeArgument len) (← Single.read factor)
    | _ => none
  else if routine = "multiplyMatrixVector".toList then
    match args with
    | [dest, matrix, vector, rows, cols] => do
      return product (← readSizeArgument dest) (← readSizeArgument matrix) (← readSizeArgument vector)
        (← readSizeArgument rows) (← readSizeArgument cols)
    | _ => none
  else if routine = "addVectors".toList then
    match args with
    | [dest, lhs, rhs, len] => do
      return add (← readSizeArgument dest) (← readSizeArgument lhs) (← readSizeArgument rhs) (← readSizeArgument len)
    | _ => none
  else none

/-- a call read from an expression: what stands before the first parenthesis is the routine, and what stands between it
and the closing one at the end are the arguments -/
def readChars (cs : List Char) : Option Call := do
  let cs := Text.trimEnd (Text.trimEndOf (· == ';') (Text.trim cs))
  let (name, rest) ← Text.splitFirst '(' cs
  let inner ← Text.dropLast? ')' rest
  ofArguments (Text.trim name) ((inner.splitOn ',').map Text.trim)

def read (s : String) : Option Call := readChars s.toList

/-- the range that a call writes -/
def written : Call → Except Fault Range
  | scale dest _ len _ | add dest _ _ len => return ⟨dest, ← Size.add dest len⟩
  | product dest _ _ rows _ => return ⟨dest, ← Size.add dest rows⟩

/-- the range that every invocation reads as a whole, if there is one -/
def gathered : Call → Except Fault (Option Range)
  | product _ _ vector _ cols => return some ⟨vector, ← Size.add vector cols⟩
  | _ => return none

/-- one past the highest element a call touches -/
def extent : Call → Except Fault Nat
  | scale dest src len _ => return max (← Size.add dest len) (← Size.add src len)
  | product dest matrix vector rows cols => do
    let written ← Size.add dest rows
    let entries ← Size.add matrix (← Size.mul rows cols)
    return max (max written entries) (← Size.add vector cols)
  | add dest lhs rhs len =>
    return max (max (← Size.add dest len) (← Size.add lhs len)) (← Size.add rhs len)

end Call

end ArrayEngine.Shader
