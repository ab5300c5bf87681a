/-
The records that are kept as JSON: descriptions, items, directories and signatures.
-/
import ArrayEngine.Json.Reader
import ArrayEngine.Json.Writer
import ArrayEngine.Directory
import ArrayEngine.Description

namespace ArrayEngine

namespace Description

def toJson (d : Description) : Json := .ofMembers [("steps", .ofTexts d.steps)]

def ofJson? (v : Json) : Option Description := do
  let [steps] ← v.fields? ["steps"] | none
  return ⟨← steps.texts?⟩

/-- a description as a document -/
def toDocument (d : Description) : String := d.toJson.compact

/-- the description in a document -/
def ofDocument? (s : String) : Option Description := (Json.read s).bind ofJson?

end Description

namespace Kind

/-- a kind is its label, or an object with the label as its only key and nothing in it -/
def ofJson? : Json → Option Kind
  | .string (some s) => ofLabel? s
  | .object [(some s, .null)] => ofLabel? s
  | _ => none

end Kind

namespace Item

def toJson (item : Item) : Json :=
  .ofMembers [("kind", .ofText item.kind.label), ("offset", .ofSize item.offset), ("shape", .ofSizes item.shape)]

def ofJson? (v : Json) : Option Item := do
  let [kind, offset, shape] ← v.fields? ["kind", "offset", "shape"] | none
  return ⟨← Kind.ofJson? kind, ← offset.size?, ← shape.sizes?⟩

end Item

namespace NameMap

def toJson (m : NameMap Item) : Json := .ofMembers (m.entries.map fun (name, item) => (name, item.toJson))

/-- a map from an object; the last member of a name counts -/
def ofJson? (v : Json) : Option (NameMap Item) := do
  let members ← v.members?
  let entries ← members.mapM fun (name, value) => (Item.ofJson? value).map (name, ·)
  return entries.foldl (fun m (name, item) => m.put name item) .empty

end NameMap

namespace Directory

def toJson (d : Directory) : Json := .ofMembers [("items", d.items.toJson)]

def ofJson? (v : Json) : Option Directory := do
  let [items] ← v.fields? ["items"] | none
  return ⟨← NameMap.ofJson? items⟩

/-- a directory as a document -/
def toDocument (d : Directory) : String := d.toJson.compact

/-- the directory in a document -/
def ofDocument? (s : String) : Option Directory := (Json.read s).bind ofJson?

end Directory

/-- a signature as a document -/
def Signature.toDocument (s : Signature) : String :=
  (Json.ofMembers [("entries", s.entries.toJson)]).compact

end ArrayEngine
