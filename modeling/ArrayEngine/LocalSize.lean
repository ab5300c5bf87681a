/-
The local size that shaders are compiled with, as it can be set from outside.

A setting that is not there or blank means the default. A positive size, with blanks around it, is taken; anything else
is ignored with a warning.
-/
import ArrayEngine.Text.Blank
import ArrayEngine.Text.Quoted
import ArrayEngine.Size

namespace ArrayEngine.LocalSize

def default : Nat := 64

/-- the variable that holds the setting -/
def settingName : String := "LINEXEC_GPU_LOCAL_SIZE"

/-- a positive size with blanks around it -/
def readPositive (cs : List Char) : Option Nat := (Size.read (Text.trim cs)).filter (0 < ·)

/-- the setting that is ignored, if it is -/
def ignored (setting : Option String) : Option String :=
  setting.filter fun s => !(Text.trim s.toList).isEmpty && (readPositive s.toList).isNone

/-- the local size for a setting -/
def ofSetting (setting : Option String) : Nat :=
  (setting.bind fun s => readPositive s.toList).getD default

/-- the warning about a setting that is ignored -/
def warning (setting : String) : String :=
  s!"ignoring {settingName}={Text.quoted setting}; using {default}"

/-- a setting given as bytes; bytes that are no text count as not set -/
def settingOfBytes (bytes : List UInt8) : Option String := String.fromUTF8? ⟨bytes.toArray⟩

end ArrayEngine.LocalSize
