/-
Why an operation fails.

An `EngineError` is an answer: a cause with the names and numbers that its message needs. `message` is the one place
where the wording stands. A `Failure` is such an answer or a `Fault`, a broken promise of the caller.
-/
import ArrayEngine.Kind
import ArrayEngine.Shader.Call

namespace ArrayEngine

/-- what is wrong with the text of a command -/
inductive Malformed where
  | noEquals
  | noDestination
  | noFunction
  | operandCount (found : Nat)
  deriving DecidableEq, Repr

/-- why no operation is defined for a command -/
inductive Unsupported where
  | unknownFunction
  | noSignature (operands : List String)
  | destinationKind (name : String) (kind : Kind)
  | readsItsResult (command : String)
  deriving DecidableEq, Repr

/-- which sizes do not go together -/
inductive Mismatch where
  | columns (matrix : String) (cols : Nat) (vector : String) (len : Nat)
  | lengths (lhs : String) (lhsLen : Nat) (rhs : String) (rhsLen : Nat)
  | destination (name : String) (len result : Nat)
  | rank (expected found : Nat)
  | window (len : Nat) (shape : List Nat)
  | extentRange (extent : Nat)
  deriving DecidableEq, Repr

/-- how a buffer differs from what is expected of it -/
inductive Incompatible where
  | noHeader (kind : Kind) (offset size : Nat)
  | header (name : String) (found recorded : List Nat)
  | missing (name : String)
  | moved (name : String) (expected found : Item)
  deriving DecidableEq, Repr

/-- the operations of a device -/
inductive DeviceCall where
  | submit
  | compile
  | dispatch
  | retrieve
  deriving DecidableEq, Repr

/-- what a device does not do -/
inductive DeviceError where
  | noLocalSize
  | noMain
  | unknownStatement (text : String)
  | partialElement (bytes : Nat)
  | unknownShader (handle : Nat)
  | nothingToRunOn
  | outsideBuffer (call : Shader.Call) (extent len : Nat)
  | nothingToRetrieve
  | retrieveSize (requested held : Nat)
  | loadSize (given held : Nat)
  | simulated (call : DeviceCall)
  deriving DecidableEq, Repr

/-- an answer that is not a result -/
inductive EngineError where
  | malformed (command : String) (reason : Malformed)
  | unknownBinding (name : String)
  | unsupported (function : String) (reason : Unsupported)
  | shapeMismatch (function : String) (reason : Mismatch)
  | duplicateBinding (name : String)
  | kindMismatch (name : String) (expected found : Kind)
  | incompatibleBuffer (reason : Incompatible)
  | device (reason : DeviceError)
  deriving DecidableEq, Repr

/-- an answer that is not a result, or a broken promise -/
inductive Failure where
  | refused (error : EngineError)
  | fault (fault : Fault)
  deriving DecidableEq, Repr

instance : MonadLift (Except Fault) (Except Failure) := ⟨fun x => x.mapError .fault⟩

instance : MonadLift (Except EngineError) (Except Failure) := ⟨fun x => x.mapError .refused⟩

/-- how messages name a shader -/
def shaderName (handle : Nat) : String := s!"shader#{handle}"

/-- the most operands a command can have -/
def maxOperands : Nat := 2

def Malformed.text : Malformed → String
  | noEquals => "missing '='"
  | noDestination => "missing destination"
  | noFunction => "missing function name"
  | operandCount found => s!"expected at most {maxOperands} operands, found {found}"

def Unsupported.text : Unsupported → String
  | unknownFunction => "function not recognised"
  | noSignature operands => "no signature matches argument types (" ++ ", ".intercalate operands ++ ")"
  | destinationKind name kind => s!"destination '{name}' is a {kind.name}, expected a vector"
  | readsItsResult command =>
    s!"'{command}' writes the vector it reads; other invocations would observe partially updated input"

def Mismatch.text : Mismatch → String
  | columns matrix cols vector len =>
    s!"matrix '{matrix}' has {cols} columns but vector '{vector}' has {len} elements"
  | lengths lhs lhsLen rhs rhsLen => s!"vector '{lhs}' has {lhsLen} elements but vector '{rhs}' has {rhsLen}"
  | destination name len result => s!"destination '{name}' has {len} elements, result has {result}"
  | rank expected found => s!"expected {expected} dimensions, got {found}"
  | window len shape => s!"view of {len} elements cannot back an array of shape {extentsText shape}"
  | extentRange extent => s!"dimension {extent} exceeds u32 range"

/-- an entry as messages write it -/
def Item.text (item : Item) : String := s!"{item.kind.name} {extentsText item.shape} at {item.offset}"

def Incompatible.text : Incompatible → String
  | noHeader kind offset size => s!"no {kind.name} header at byte offset {offset} of a {size}-byte buffer"
  | header name found recorded =>
    s!"header of '{name}' reads {extentsText found}, directory records {extentsText recorded}"
  | missing name => s!"binding '{name}' is missing"
  | moved name expected found => s!"binding '{name}' moved from {expected.text} to {found.text}"

def DeviceCall.name : DeviceCall → String
  | submit => "submit"
  | compile => "compile"
  | dispatch => "dispatch"
  | retrieve => "retrieve"

def DeviceError.text : DeviceError → String
  | noLocalSize => "shader does not declare a positive local size"
  | noMain => "shader has no main function"
  | unknownStatement text => s!"unsupported shader statement '{text}'"
  | partialElement bytes => s!"submitted {bytes} bytes, not a whole number of f32 elements"
  | unknownShader handle => s!"unknown shader handle {shaderName handle}"
  | nothingToRunOn => "dispatch before any buffer was submitted"
  | outsideBuffer call extent len => s!"{call.render} reaches element {extent} of a {len}-element buffer"
  | nothingToRetrieve => "retrieve before any buffer was submitted"
  | retrieveSize requested held => s!"retrieve into {requested} bytes, device buffer holds {held}"
  | loadSize given held => s!"cannot load {given} bytes into a {held}-byte buffer"
  | simulated call => s!"simulated {call.name} failure"

/-- an error as it is reported -/
def EngineError.message : EngineError → String
  | malformed command reason => s!"syntax error in command '{command}': {reason.text}"
  | unknownBinding name => s!"unknown binding '{name}'"
  | unsupported function reason => s!"unsupported operation '{function}': {reason.text}"
  | shapeMismatch function reason => s!"shape mismatch in '{function}': {reason.text}"
  | duplicateBinding name => s!"binding '{name}' is already present in the buffer"
  | kindMismatch name expected found => s!"binding '{name}' holds a {found.name}, expected a {expected.name}"
  | incompatibleBuffer reason => s!"computation does not match buffer layout: {reason.text}"
  | device reason => s!"device failure: {reason.text}"

end ArrayEngine
