/-
Devices: what can hold one buffer of numbers and run shaders on it.

Every operation takes the device and gives it back, also when it fails.
-/
import ArrayEngine.Error

namespace ArrayEngine

/-- the handle of a compiled shader -/
structure ShaderHandle where
  index : Nat
  deriving DecidableEq, Repr

def ShaderHandle.text (h : ShaderHandle) : String := shaderName h.index

/-- a device with one buffer -/
class Device (δ : Type) where
  /-- what messages call the device -/
  name : String
  /-- replaces the buffer -/
  submit : List UInt8 → EStateM Failure δ Unit
  /-- compiles a shader -/
  compile : String → EStateM Failure δ ShaderHandle
  /-- runs a number of workgroups of a shader on the buffer -/
  dispatch : ShaderHandle → Nat → EStateM Failure δ Unit
  /-- the bytes of the buffer, of which there must be as many as given -/
  retrieve : Nat → EStateM Failure δ (List UInt8)

end ArrayEngine
