/-
JSON documents as values.

A number is kept as it is written. A string whose escapes leave half of a surrogate pair has no text; such a string is
`none`, as a value and as a key, and it is up to whoever asks for the text to refuse it.
-/
import ArrayEngine.Size

namespace ArrayEngine

inductive Json where
  | null
  | bool (b : Bool)
  | number (text : List Char)
  | string (text : Option String)
  | array (elements : List Json)
  | object (members : List (Option String × Json))
  deriving Inhabited

namespace Json

/-- a size as a number -/
def ofSize (n : Nat) : Json := .number (Size.write n)

def ofText (s : String) : Json := .string (some s)

def ofTexts (xs : List String) : Json := .array (xs.map ofText)

def ofSizes (xs : List Nat) : Json := .array (xs.map ofSize)

/-- an object with the given keys in order -/
def ofMembers (ms : List (String × Json)) : Json := .object (ms.map fun (k, v) => (some k, v))

/-- the size that a number stands for: digits only -/
def size? : Json → Option Nat
  | .number text => if text.all Char.isDigit then Size.read text else none
  | _ => none

/-- the text of a string -/
def text? : Json → Option String
  | .string s => s
  | _ => none

def elements? : Json → Option (List Json)
  | .array vs => some vs
  | _ => none

/-- the members of an object, if every key has a text -/
def members? : Json → Option (List (String × Json))
  | .object ms => ms.mapM fun (k, v) => k.map (·, v)
  | _ => none

def sizes? (v : Json) : Option (List Nat) := v.elements?.bind (·.mapM size?)

def texts? (v : Json) : Option (List String) := v.elements?.bind (·.mapM text?)

/-- the values of a record's fields, in order. A record is an object in which every field stands exactly once, whatever
else stands in it, or an array of the fields' values in order -/
def fields? (names : List String) (v : Json) : Option (List Json) :=
  match v with
  | .array vs => if vs.length = names.length then some vs else none
  | v => do
    let ms ← v.members?
    names.mapM fun name =>
      match ms.filter (·.1 == name) with
      | [(_, value)] => some value
      | _ => none

end Json

end ArrayEngine
