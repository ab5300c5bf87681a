/-
Descriptions: lists of commands that are compiled as one unit. As text, a description has one command a line.
-/
import ArrayEngine.Text.Blank

namespace ArrayEngine

/-- the commands of a computation, in order -/
structure Description where
  steps : List String
  deriving DecidableEq, Repr

namespace Description

def empty : Description := ⟨[]⟩

/-- the trimmed lines of a text, without the blank ones -/
def parse (text : String) : Description := ⟨(Text.lines text.toList).map String.ofList⟩

def push (d : Description) (command : String) : Description := ⟨d.steps ++ [command]⟩

/-- the commands of one description, then those of another -/
def chain (d e : Description) : Description := ⟨d.steps ++ e.steps⟩

def length (d : Description) : Nat := d.steps.length

def isEmpty (d : Description) : Bool := d.steps.isEmpty

end Description

end ArrayEngine
