/-
Shader documents: the text of a compute shader that runs a list of calls in its `main`.

`render` sets out the version, the declaration of the local size, the storage block, the library of routines and `main`.
`readLocalSize` and `mainStatements` find the local size and the statements of `main` in such a text, wherever they
stand: the number after the first `local_size_x =`, and what stands between the first brace after `void main()` and the
last brace of the text.
-/
import ArrayEngine.Shader.Call

namespace ArrayEngine.Shader

def version : String := "#version 450"

/-- the block that holds every array -/
def storageBlock : String :=
  "layout(std430, binding = 0) buffer Arena \x7b\n    float data[];\n\x7d;"

/-- the routines that calls can name; each guards against invocations past its own size -/
def library : String :=
  "\n".intercalate [
    "void multiplyVectorScalar(uint dest, uint src, uint n, float factor) \x7b",
    "    uint i = gl_GlobalInvocationID.x;",
    "    if (i < n) \x7b",
    "        data[dest + i] = data[src + i] * factor;",
    "    \x7d",
    "\x7d",
    "",
    "void multiplyMatrixVector(uint dest, uint m, uint v, uint rows, uint cols) \x7b",
    "    uint row = gl_GlobalInvocationID.x;",
    "    if (row < rows) \x7b",
    "        float acc = 0.0;",
    "        for (uint c = 0u; c < cols; ++c) \x7b",
    "            acc += data[m + row * cols + c] * data[v + c];",
    "        \x7d",
    "        data[dest + row] = acc;",
    "    \x7d",
    "\x7d",
    "",
    "void addVectors(uint dest, uint lhs, uint rhs, uint n) \x7b",
    "    uint i = gl_GlobalInvocationID.x;",
    "    if (i < n) \x7b",
    "        data[dest + i] = data[lhs + i] + data[rhs + i];",
    "    \x7d",
    "\x7d"]

/-- the declaration of a local size -/
def localSizeDeclaration (localSize : Nat) : String :=
  s!"layout(local_size_x = {localSize}, local_size_y = 1, local_size_z = 1) in;"

/-- the shader that runs the given calls in order -/
def render (localSize : Nat) (calls : List Call) : String :=
  String.join ([version, localSizeDeclaration localSize, storageBlock, library].map (· ++ "\n\n")) ++
    "void main() \x7b\n" ++ String.join (calls.map fun c => "    " ++ c.render ++ ";\n") ++ "\x7d\n"

/-- the local size that a shader declares -/
def readLocalSize (source : List Char) : Option Nat := do
  let rest ← Text.afterFirst "local_size_x".toList source
  match Text.trimStart rest with
  | '=' :: r => Size.read ((Text.trimStart r).takeWhile Char.isDigit)
  | _ => none

/-- the statements in the `main` of a shader -/
def mainStatements (source : List Char) : Option (List (List Char)) := do
  let rest ← Text.afterFirst "void main()".toList source
  let (_, afterOpen) ← Text.splitFirst '\x7b' rest
  let (body, _) ← Text.splitLast '\x7d' afterOpen
  return ((body.splitOn ';').map Text.trim).filter (· ≠ [])

end ArrayEngine.Shader
