/-
The device that interprets shaders on the host.

A dispatch runs the invocations 0, 1, ... one after the other, and each invocation runs all calls of the shader in
order. Invocation i of a call reads and writes the elements that belong to index i, if the call has so many. Before the
first invocation every call is checked to stay inside the buffer. An operation that fails leaves the device as it is.
-/
import ArrayEngine.Device.Basic
import ArrayEngine.Run
import ArrayEngine.Shader.Document
import ArrayEngine.Memory.Bytes
import ArrayEngine.Single.Arithmetic

namespace ArrayEngine

/-- what a shader does -/
structure Program where
  localSize : Nat
  calls : List Shader.Call
  deriving DecidableEq, Repr

namespace Program

/-- the calls that a list of statements stands for -/
def parseCalls (statements : List (List Char)) : Except EngineError (List Shader.Call) :=
  statements.mapM fun statement =>
    match Shader.Call.readChars statement with
    | some call => .ok call
    | none => .error (.device (.unknownStatement (String.ofList statement)))

/-- the program of a shader -/
def parse (source : String) : Except EngineError Program := do
  let cs := source.toList
  let some localSize := (Shader.readLocalSize cs).filter (0 < ·) | throw (.device .noLocalSize)
  let some statements := Shader.mainStatements cs | throw (.device .noMain)
  return ⟨localSize, ← parseCalls statements⟩

end Program

/-- the numbers a device works on -/
abbrev DeviceMemory := Array Single

namespace DeviceMemory

/-- an element -/
def load (m : DeviceMemory) (i : Nat) : Except Fault Single :=
  if h : i < m.size then .ok m[i] else .error .outOfRange

/-- the memory with another element -/
def store (m : DeviceMemory) (i : Nat) (x : Single) : Except Fault DeviceMemory :=
  if h : i < m.size then .ok (m.set i x) else .error .outOfRange

/-- the sum of `n` products of the elements from `i` and from `j` on, added to `acc` from left to right -/
def dotFrom (m : DeviceMemory) (i j : Nat) : Nat → Single → Except Fault Single
  | 0, acc => .ok acc
  | n + 1, acc => do
    let x ← m.load i
    let y ← m.load j
    dotFrom m (i + 1) (j + 1) n (acc + x * y)

/-- one invocation of a call -/
def invoke (m : DeviceMemory) (gid : Nat) : Shader.Call → Except Fault DeviceMemory
  | .scale dest src len factor => do
    if gid < len then m.store (dest + gid) ((← m.load (src + gid)) * factor) else return m
  | .product dest matrix vector rows cols => do
    if gid < rows then m.store (dest + gid) (← m.dotFrom (matrix + gid * cols) vector cols .negZero) else return m
  | .add dest lhs rhs len => do
    if gid < len then m.store (dest + gid) ((← m.load (lhs + gid)) + (← m.load (rhs + gid))) else return m

/-- one invocation of a list of calls -/
def invokeAll (calls : List Shader.Call) (gid : Nat) (m : DeviceMemory) : Except Fault DeviceMemory :=
  calls.foldlM (fun m call => m.invoke gid call) m

/-- `n` invocations of a list of calls, from `gid` on -/
def runFrom (calls : List Shader.Call) : Nat → Nat → DeviceMemory → Except Fault DeviceMemory
  | 0, _, m => .ok m
  | n + 1, gid, m => do
    let m ← invokeAll calls gid m
    runFrom calls n (gid + 1) m

/-- the invocations below `n` of a list of calls -/
def run (calls : List Shader.Call) (n : Nat) (m : DeviceMemory) : Except Fault DeviceMemory := runFrom calls n 0 m

end DeviceMemory

/-- refuses the first call that reaches outside a buffer of `len` elements -/
def checkExtents (len : Nat) (calls : List Shader.Call) : Except Failure Unit :=
  calls.forM fun call => do
    let extent ← call.extent
    if len < extent then throw (.refused (.device (.outsideBuffer call extent len)))

/-- the device on the host: its buffer, if one was submitted, and the programs behind the handles -/
structure HostDevice where
  memory : Option DeviceMemory
  programs : Array Program

namespace HostDevice

def empty : HostDevice := ⟨none, #[]⟩

def shaderCount (d : HostDevice) : Nat := d.programs.size

def submit (d : HostDevice) (bytes : List UInt8) : Except Failure HostDevice :=
  if bytes.length % Size.wordBytes = 0 then
    .ok { d with memory := some ((Bytes.toWords bytes).map Single.mk).toArray }
  else .error (.refused (.device (.partialElement bytes.length)))

def compile (d : HostDevice) (source : String) : Except Failure (ShaderHandle × HostDevice) := do
  let program ← Program.parse source
  return (⟨d.programs.size⟩, { d with programs := d.programs.push program })

def dispatch (d : HostDevice) (h : ShaderHandle) (workgroups : Nat) : Except Failure HostDevice := do
  let some program := d.programs[h.index]? | throw (.refused (.device (.unknownShader h.index)))
  let some memory := d.memory | throw (.refused (.device .nothingToRunOn))
  checkExtents memory.size program.calls
  let invocations ← Size.mul workgroups program.localSize
  let memory ← memory.run program.calls invocations
  return { d with memory := some memory }

def retrieve (d : HostDevice) (size : Nat) : Except Failure (List UInt8) := do
  let some memory := d.memory | throw (.refused (.device .nothingToRetrieve))
  let held := Size.wordBytes * memory.size
  if held = size then return Bytes.ofWords (memory.toList.map Single.bits)
  else throw (.refused (.device (.retrieveSize size held)))

instance : Device HostDevice where
  name := "host"
  submit bytes := Run.attempt fun d => d.submit bytes
  compile source := fun d =>
    match d.compile source with
    | .ok (h, d) => .ok h d
    | .error e => .error e d
  dispatch h workgroups := Run.attempt fun d => d.dispatch h workgroups
  retrieve size := fun d =>
    match d.retrieve size with
    | .ok bytes => .ok bytes d
    | .error e => .error e d

end HostDevice

end ArrayEngine
