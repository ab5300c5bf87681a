/-
Commands as tokens, and what a token stands for.

A command is `destination = function operand ...`. What stands before the first `=` is the destination, trimmed; what
stands after it is cut at blanks. A token that reads as a finite number is a literal, any other token is a name and must
be in the directory.
-/
import ArrayEngine.Directory

namespace ArrayEngine

/-- a name with its item -/
structure Binding where
  name : String
  item : Item
  deriving DecidableEq, Repr

namespace Binding

def kind (b : Binding) : Kind := b.item.kind

def offset (b : Binding) : Nat := b.item.offset

def length (b : Binding) : Except Fault Nat := b.item.elementCount

end Binding

namespace Command

/-- the destination, the function and the operands of a command -/
def tokenize (command : String) : Except EngineError (List String) :=
  match Text.splitFirst '=' command.toList with
  | none => .error (.malformed command .noEquals)
  | some (left, right) =>
    let dest := Text.trim left
    let rest := Text.words right
    if dest = [] then .error (.malformed command .noDestination)
    else if rest = [] then .error (.malformed command .noFunction)
    else .ok ((dest :: rest).map String.ofList)

/-- what a token stands for -/
inductive Token where
  | literal (value : Single)
  | binding (binding : Binding)
  deriving DecidableEq, Repr

namespace Token

/-- a finite number if the text reads as one, else the item of that name -/
def parse (d : Directory) (text : String) : Except EngineError Token :=
  match Single.readFinite text.toList with
  | some value => .ok (.literal value)
  | none => do return .binding ⟨text, ← d.get text⟩

/-- what a token is called where no signature matches -/
def kindName : Token → String
  | literal _ => "scalar"
  | binding b => b.kind.name

end Token

end Command

end ArrayEngine
