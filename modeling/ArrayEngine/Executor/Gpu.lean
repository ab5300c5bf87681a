/-
The executor that runs groups of commands as shaders on a device.

Compiling resolves and lowers all commands, groups them, and compiles one shader for each group. Compiled shaders are
kept by a fingerprint of their source and used again only if the source is the same. Executing submits the whole arena,
dispatches every step in order, n times over, and retrieves the whole arena; the buffer changes only if all of it
succeeds.
-/
import ArrayEngine.Buffer
import ArrayEngine.Device.Basic
import ArrayEngine.Json.Writer
import ArrayEngine.LocalSize
import ArrayEngine.Run
import ArrayEngine.Shader.Document
import ArrayEngine.Shader.Fusion

namespace ArrayEngine.Gpu

/-- one dispatch -/
structure Step where
  source : String
  shader : ShaderHandle
  workSize : Nat
  localSize : Nat
  workgroups : Nat
  commands : List String

/-- a compiled description -/
structure Computation where
  steps : List Step
  layout : Signature
  localSize : Nat

/-- a compiled shader that is kept -/
structure CachedShader where
  fingerprint : UInt64
  source : String
  shader : ShaderHandle

/-- a device with the shaders that were compiled on it -/
structure Executor (δ : Type) where
  device : δ
  localSize : Nat
  fingerprint : String → UInt64
  cache : List CachedShader

/-- a number for a text: for each byte, exclusive or and a multiplication -/
def fingerprintOf (source : String) : UInt64 :=
  source.toUTF8.foldl (fun h byte => (h ^^^ byte.toUInt64) * 0x100000001b3) 0xcbf29ce484222325

namespace Executor

variable {δ : Type}

/-- an executor with the default local size -/
def create (device : δ) : Executor δ := ⟨device, LocalSize.default, fingerprintOf, []⟩

/-- the executor with another local size, at least one -/
def withLocalSize (e : Executor δ) (localSize : Nat) : Executor δ := { e with localSize := max localSize 1 }

/-- an operation of the device -/
def onDevice {α : Type} (act : EStateM Failure δ α) : EStateM Failure (Executor δ) α := fun e =>
  match act e.device with
  | .ok a d => .ok a { e with device := d }
  | .error f d => .error f { e with device := d }

/-- the kept shader for a source -/
def cached? (e : Executor δ) (source : String) : Option ShaderHandle :=
  match e.cache.find? (·.fingerprint == e.fingerprint source) with
  | some entry => if entry.source = source then some entry.shader else none
  | none => none

/-- the executor with a shader kept, in place of one with the same fingerprint -/
def keep (e : Executor δ) (source : String) (shader : ShaderHandle) : Executor δ :=
  let key := e.fingerprint source
  { e with cache := ⟨key, source, shader⟩ :: e.cache.filter (·.fingerprint != key) }

variable [Device δ]

/-- the shader for a source: a kept one, or one that is compiled and kept -/
def obtain (source : String) : EStateM Failure (Executor δ) ShaderHandle := do
  match (← get).cached? source with
  | some shader => return shader
  | none =>
    let shader ← onDevice (Device.compile source)
    modify fun e => e.keep source shader
    return shader

/-- the dispatch of a group -/
def buildStep (g : Shader.Group) : EStateM Failure (Executor δ) Step := do
  let localSize := (← get).localSize
  let source := Shader.render localSize g.calls
  let shader ← obtain source
  return ⟨source, shader, g.workSize, localSize, (g.workSize + localSize - 1) / localSize, g.commands⟩

end Executor

/-- what a description comes to against a directory, before any shader is compiled -/
def plan (d : Directory) (description : Description) : Except Failure (Signature × List Shader.Group) := do
  let commands ← Command.resolveAll d description
  let snippets ← commands.mapM Shader.Snippet.ofResolved
  return (.ofCommands commands, ← Shader.groups snippets)

/-- a description compiled against a directory -/
def Executor.compile {δ : Type} [Device δ] (d : Directory) (description : Description) :
    EStateM Failure (Executor δ) Computation := fun e =>
  match plan d description with
  | .error f => .error f e
  | .ok (layout, groups) =>
    match groups.mapM buildStep e with
    | .ok steps e => .ok ⟨steps, layout, e.localSize⟩ e
    | .error f e => .error f e

namespace Computation

/-- the commands of each step -/
def stepCommands (c : Computation) : List (List String) := c.steps.map (·.commands)

/-- the summary of a computation: its local size, and of each step the commands, the work size and the workgroups -/
def manifest (c : Computation) : Json :=
  .ofMembers [
    ("local_size", .ofSize c.localSize),
    ("steps", .array (c.steps.map fun step => .ofMembers [
      ("commands", .ofTexts step.commands),
      ("work_size", .ofSize step.workSize),
      ("workgroups", .ofSize step.workgroups)]))]

/-- what is logged when a computation was compiled on a device -/
def compileLog (c : Computation) (device : String) : List LogLine :=
  let commands := c.stepCommands.flatten.length
  [⟨.debug, s!"compiled {commands} commands into {c.steps.length} gpu steps on {device}"⟩]

end Computation

/-- how a computation ended on a device: the bytes it left, or why it ended early -/
structure Dispatched (δ : Type) where
  device : δ
  begun : Nat
  result : Except Failure (List UInt8)

/-- the dispatches of a computation, `n` times, on a buffer of bytes -/
def Computation.runOn {δ : Type} [Device δ] (c : Computation) (bytes : List UInt8) (n : Nat) (d : δ) : Dispatched δ :=
  match Device.submit bytes d with
  | .error f d => ⟨d, 0, .error f⟩
  | .ok _ d =>
    match Run.times (fun step : Step => Device.dispatch step.shader step.workgroups) c.steps n 0 d with
    | ⟨d, begun, some f⟩ => ⟨d, begun, .error f⟩
    | ⟨d, begun, none⟩ =>
      match Device.retrieve bytes.length d with
      | .error f d => ⟨d, begun, .error f⟩
      | .ok bytes d => ⟨d, begun, .ok bytes⟩

/-- how an execution ended -/
structure Executed (δ : Type) where
  executor : Executor δ
  store : Store
  begun : Nat
  result : Except Failure Unit

/-- a computation run `n` times on a buffer whose layout is the one it was compiled against -/
def Executor.execute {δ : Type} [Device δ] (e : Executor δ) (c : Computation) (buf : Buffer .gpu) (s : Store)
    (n : Nat) : Executed δ :=
  match c.layout.verify buf.directory with
  | .error f => ⟨e, s, 0, .error (.refused f)⟩
  | .ok _ =>
    let ran := c.runOn (buf.bytes s) n e.device
    match ran.result with
    | .ok bytes => ⟨{ e with device := ran.device }, s.put buf.arena (.ofBytes bytes), ran.begun, .ok ()⟩
    | .error f => ⟨{ e with device := ran.device }, s, ran.begun, .error f⟩

/-- what is logged by an execution: every dispatch that was begun, and the end if it was reached -/
def Executed.log {δ : Type} (x : Executed δ) (c : Computation) (n : Nat) : List LogLine :=
  (firstOfCycle c.steps x.begun).map
      (fun step => ⟨.debug, "dispatching " ++ step.shader.text ++ s!" x{step.workgroups} for [" ++
        "; ".intercalate step.commands ++ "]"⟩) ++
    match x.result with
    | .ok _ => [⟨.debug, s!"executed {c.steps.length} gpu steps x {n}"⟩]
    | .error _ => []

end ArrayEngine.Gpu
