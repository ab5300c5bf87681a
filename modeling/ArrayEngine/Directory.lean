/-
The directory of a buffer, and the part of it that a computation relies on.

A directory maps names to items; a name is taken once and for all. A `Signature` records the items that a computation
was compiled against, the first record of a name being the one that counts. `verify` compares it with a directory: every
recorded name must be there with the very same item, and other names do not matter.
-/
import ArrayEngine.NameMap
import ArrayEngine.Error

namespace ArrayEngine

/-- the items of a buffer, by name -/
structure Directory where
  items : NameMap Item
  deriving DecidableEq

namespace Directory

def empty : Directory := ⟨.empty⟩

instance : EmptyCollection Directory := ⟨empty⟩

def get? (d : Directory) (name : String) : Option Item := d.items.get? name

/-- the item of a name -/
def get (d : Directory) (name : String) : Except EngineError Item :=
  match d.get? name with
  | some item => .ok item
  | none => .error (.unknownBinding name)

/-- the item of a name, which must be of the given kind -/
def getKind (d : Directory) (name : String) (kind : Kind) : Except EngineError Item := do
  let item ← d.get name
  if item.kind = kind then return item else throw (.kindMismatch name kind item.kind)

/-- refuses a name that is taken -/
def ensureVacant (d : Directory) (name : String) : Except EngineError Unit :=
  if d.items.contains name then .error (.duplicateBinding name) else .ok ()

/-- the directory with one more name -/
def insert (d : Directory) (name : String) (item : Item) : Except EngineError Directory := do
  d.ensureVacant name
  return ⟨d.items.put name item⟩

end Directory

/-- the items that a computation was compiled against -/
structure Signature where
  entries : NameMap Item
  deriving DecidableEq

namespace Signature

def empty : Signature := ⟨.empty⟩

/-- records an item, unless its name is on record -/
def record (s : Signature) (name : String) (item : Item) : Signature := ⟨s.entries.putNew name item⟩

/-- whether a directory has the recorded item of a name -/
def verifyEntry (d : Directory) : String × Item → Except EngineError Unit
  | (name, expected) =>
    match d.get? name with
    | none => .error (.incompatibleBuffer (.missing name))
    | some found =>
      if found = expected then .ok () else .error (.incompatibleBuffer (.moved name expected found))

/-- whether a directory has all recorded items; the first name that fails is reported -/
def verify (s : Signature) (d : Directory) : Except EngineError Unit :=
  s.entries.entries.forM (verifyEntry d)

end Signature

end ArrayEngine
