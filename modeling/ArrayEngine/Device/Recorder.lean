/-
A device that notes what is asked of it, and that can be made to fail.

It notes every operation before it is carried out by the host device behind it. A planned failure lets a number of calls
of one operation pass and fails all later ones; the failed calls are noted too, but not carried out.
-/
import ArrayEngine.Device.Host

namespace ArrayEngine

/-- what was asked of a device -/
inductive DeviceEvent where
  | submit (bytes : Nat)
  | compile
  | dispatch (shader : ShaderHandle) (workgroups : Nat)
  | retrieve (bytes : Nat)
  deriving DecidableEq, Repr

/-- the operation that an event notes -/
def DeviceEvent.call : DeviceEvent → DeviceCall
  | submit _ => .submit
  | compile => .compile
  | dispatch .. => .dispatch
  | retrieve _ => .retrieve

/-- an operation that fails after some more calls -/
structure PlannedFailure where
  call : DeviceCall
  remaining : Nat

/-- a host device with the events it has seen and the failure planned for it -/
structure Recorder where
  device : HostDevice
  events : List DeviceEvent
  planned : Option PlannedFailure

namespace Recorder

def empty : Recorder := ⟨.empty, [], none⟩

def shaderCount (r : Recorder) : Nat := r.device.shaderCount

/-- the recorder with another failure planned, or none -/
def plan (r : Recorder) (planned : Option PlannedFailure) : Recorder := { r with planned := planned }

/-- the recorder without the events so far -/
def forget (r : Recorder) : Recorder := { r with events := [] }

/-- the planned failure after one more call, or `none` if that call has to fail -/
def proceed (planned : Option PlannedFailure) (call : DeviceCall) : Option (Option PlannedFailure) :=
  match planned with
  | none => some none
  | some p =>
    if p.call = call then
      match p.remaining with
      | 0 => none
      | n + 1 => some (some { p with remaining := n })
    else some (some p)

/-- notes an event and passes the operation on, unless it is planned to fail -/
def record {α : Type} (event : DeviceEvent) (act : EStateM Failure HostDevice α) :
    EStateM Failure Recorder α := fun r =>
  let r := { r with events := r.events ++ [event] }
  match proceed r.planned event.call with
  | none => .error (.refused (.device (.simulated event.call))) r
  | some planned =>
    match act r.device with
    | .ok a d => .ok a { r with device := d, planned := planned }
    | .error e d => .error e { r with device := d, planned := planned }

instance : Device Recorder where
  name := "recording"
  submit bytes := record (.submit bytes.length) (Device.submit bytes)
  compile source := record .compile (Device.compile source)
  dispatch h workgroups := record (.dispatch h workgroups) (Device.dispatch h workgroups)
  retrieve size := record (.retrieve size) (Device.retrieve size)

end Recorder

end ArrayEngine
