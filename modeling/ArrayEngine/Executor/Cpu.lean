/-
The executor that runs commands one by one on the host.

A compiled step keeps the operation with its byte offsets. It reads the extents of its operands from the headers when it
runs, computes its results from the operands as they are then, and writes them where the destination's elements start.
-/
import ArrayEngine.Buffer
import ArrayEngine.Command.Resolve
import ArrayEngine.Run
import ArrayEngine.Text.Quoted

namespace ArrayEngine.Cpu

/-- the elements of a stored array, found through its header -/
structure Region where
  word : Nat
  extents : List Nat

/-- the elements of the array whose header stands at a byte offset -/
def Region.locate (a : Arena) (kind : Kind) (offset : Nat) : Except Fault Region := do
  return ⟨Backend.cpu.elementWord kind offset, ← a.headerExtents kind offset⟩

def Region.length (r : Region) : Except Fault Nat := Size.product r.extents

def Region.read (r : Region) (a : Arena) : Except Fault (List Single) := do
  a.floats r.word (← r.length)

/-- the word where the elements of a destination start -/
def destWord (dest : Binding) : Nat := Backend.cpu.elementWord .vector dest.offset

/-- the arena after an operation -/
def apply (op : Operation) (a : Arena) : Except Fault Arena :=
  match op with
  | .scale dest src factor => do
    let src ← Region.locate a .vector src.offset
    let out ← Kernel.scale (← src.read a) factor (← src.length)
    a.writeFloats (destWord dest) out
  | .product dest matrix vector => do
    let m ← Region.locate a .matrix matrix.offset
    let v ← Region.locate a .vector vector.offset
    let rows := m.extents.headD 0
    let cols := m.extents.getLastD 0
    a.checkRange (destWord dest) rows
    let out ← Kernel.matvec (← m.read a) rows cols (← v.read a) rows
    a.writeFloats (destWord dest) out
  | .add dest lhs rhs => do
    let lhs ← Region.locate a .vector lhs.offset
    let rhs ← Region.locate a .vector rhs.offset
    let out ← Kernel.add (← lhs.read a) (← rhs.read a) (← lhs.length)
    a.writeFloats (destWord dest) out

/-- one step: an operation that fails leaves the arena as it is -/
def step (r : Resolved) : EStateM Failure Arena Unit :=
  Run.attempt fun a => (apply r.operation a).mapError .fault

/-- how a step is shown -/
def stepText (r : Resolved) : String := "CpuStep \x7b command: " ++ Text.quoted r.text ++ ", .. \x7d"

/-- a compiled description -/
structure Computation where
  steps : List Resolved
  layout : Signature

/-- a description compiled against a directory -/
def compile (d : Directory) (description : Description) : Except Failure Computation := do
  let commands ← Command.resolveAll d description
  return ⟨commands, .ofCommands commands⟩

namespace Computation

/-- the commands of each step -/
def stepCommands (c : Computation) : List (List String) := c.steps.map fun r => [r.text]

/-- what is logged when a computation was compiled -/
def compileLog (c : Computation) : List LogLine := [⟨.debug, s!"compiled {c.steps.length} cpu steps"⟩]

end Computation

/-- how an execution ended -/
structure Executed where
  store : Store
  begun : Nat
  result : Except Failure Unit

/-- a computation run `n` times on a buffer whose layout is the one it was compiled against -/
def execute (c : Computation) (buf : Buffer .cpu) (s : Store) (n : Nat) : Executed :=
  match c.layout.verify buf.directory with
  | .error e => ⟨s, 0, .error (.refused e)⟩
  | .ok _ =>
    let run := Run.times step c.steps n 0 (s.arena buf.arena)
    ⟨s.put buf.arena run.state, run.begun, match run.failure with
      | none => .ok ()
      | some e => .error e⟩

/-- what is logged by an execution: every step that was begun, and the end if it was reached -/
def Executed.log (x : Executed) (c : Computation) (n : Nat) : List LogLine :=
  (firstOfCycle c.steps x.begun).map (fun r => ⟨.debug, s!"executing command: {r.text}"⟩) ++
    match x.result with
    | .ok _ => [⟨.debug, s!"executed {c.steps.length} cpu steps x {n}"⟩]
    | .error _ => []

end ArrayEngine.Cpu
