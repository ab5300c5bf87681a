/-
What a command means, by the kinds and shapes on record.

`resolve` looks up every token and picks the operation whose signature the operands match. What it reports first: the
text, the number of operands, the function, the destination, the operands from left to right, the signature, the sizes
of the operands, the kind of the destination, its size.
-/
import ArrayEngine.Command.Token
import ArrayEngine.Description

namespace ArrayEngine

/-- the functions a command can name -/
inductive FunctionName where
  | multiply
  | add
  deriving DecidableEq, Repr

namespace FunctionName

def name : FunctionName → String
  | multiply => "multiply"
  | add => "add"

def lookup (s : String) : Option FunctionName := [multiply, add].find? (·.name == s)

end FunctionName

/-- a command with every name looked up -/
inductive Operation where
  | scale (dest src : Binding) (factor : Single)
  | product (dest matrix vector : Binding)
  | add (dest lhs rhs : Binding)
  deriving DecidableEq, Repr

namespace Operation

def function : Operation → FunctionName
  | scale .. | product .. => .multiply
  | add .. => .add

def dest : Operation → Binding
  | scale dest .. | product dest .. | add dest .. => dest

/-- every binding of an operation, the destination first -/
def bindings : Operation → List Binding
  | scale dest src _ => [dest, src]
  | product dest matrix vector => [dest, matrix, vector]
  | add dest lhs rhs => [dest, lhs, rhs]

/-- the number of results: the length of a vector, the rows of a matrix -/
def workSize : Operation → Except Fault Nat
  | scale _ src _ => src.length
  | product _ matrix _ => .ok matrix.item.rows
  | add _ lhs _ => lhs.length

end Operation

/-- a command and what it means -/
structure Resolved where
  text : String
  operation : Operation
  deriving DecidableEq, Repr

namespace Command

/-- refuses operands that no signature of a function matches -/
def noSignature {α : Type} (f : FunctionName) (operands : List Token) : Except Failure α :=
  .error (.refused (.unsupported f.name (.noSignature (operands.map Token.kindName))))

/-- the product that the operands call for, with the number of its results -/
def resolveMultiply (dest : Binding) (operands : List Token) : Except Failure (Operation × Nat) :=
  match operands with
  | [.binding src, .literal factor] =>
    if src.kind = .vector then do return (.scale dest src factor, ← src.length)
    else noSignature .multiply operands
  | [.binding matrix, .binding vector] =>
    if matrix.kind = .matrix ∧ vector.kind = .vector then do
      let len ← vector.length
      if matrix.item.cols = len then return (.product dest matrix vector, matrix.item.rows)
      else
        throw (.refused (.shapeMismatch FunctionName.multiply.name
          (.columns matrix.name matrix.item.cols vector.name len)))
    else noSignature .multiply operands
  | _ => noSignature .multiply operands

/-- the sum that the operands call for, with the number of its results -/
def resolveAdd (dest : Binding) (operands : List Token) : Except Failure (Operation × Nat) :=
  match operands with
  | [.binding lhs, .binding rhs] =>
    if lhs.kind = .vector ∧ rhs.kind = .vector then do
      let lhsLen ← lhs.length
      let rhsLen ← rhs.length
      if lhsLen = rhsLen then return (.add dest lhs rhs, lhsLen)
      else throw (.refused (.shapeMismatch FunctionName.add.name (.lengths lhs.name lhsLen rhs.name rhsLen)))
    else noSignature .add operands
  | _ => noSignature .add operands

/-- the binding that a destination names -/
def resolveDest (d : Directory) (text : String) : Except EngineError Binding := do
  match ← Token.parse d text with
  | .binding b => return b
  | .literal _ => throw (.unknownBinding text)

/-- refuses a destination that cannot hold `results` results -/
def checkDest (f : FunctionName) (dest : Binding) (results : Nat) : Except Failure Unit := do
  if dest.kind ≠ .vector then
    throw (.refused (.unsupported f.name (.destinationKind dest.name dest.kind)))
  let len ← dest.length
  if len ≠ results then
    throw (.refused (.shapeMismatch f.name (.destination dest.name len results)))

/-- the operation that the tokens of a command call for -/
def resolveTokens (d : Directory) (command dest function : String) (operands : List String) :
    Except Failure Operation := do
  if maxOperands < operands.length then
    throw (.refused (.malformed command (.operandCount operands.length)))
  let some f := FunctionName.lookup function | throw (.refused (.unsupported function .unknownFunction))
  let dest ← resolveDest d dest
  let operands ← (operands.mapM (Token.parse d) : Except EngineError (List Token))
  let (operation, results) ←
    match f with
    | .multiply => resolveMultiply dest operands
    | .add => resolveAdd dest operands
  checkDest f dest results
  return operation

/-- what a command means -/
def resolve (d : Directory) (command : String) : Except Failure Resolved := do
  match ← tokenize command with
  | dest :: function :: operands => return ⟨command, ← resolveTokens d command dest function operands⟩
  | _ => throw (.refused (.malformed command .noFunction))

/-- what the commands of a description mean; the first one that fails is reported -/
def resolveAll (d : Directory) (description : Description) : Except Failure (List Resolved) :=
  description.steps.mapM (resolve d)

end Command

/-- records every binding of every command -/
def Signature.ofCommands (commands : List Resolved) : Signature :=
  (commands.flatMap (·.operation.bindings)).foldl (fun s b => s.record b.name b.item) .empty

end ArrayEngine
