/-
Lowering commands to calls, and grouping calls into dispatches.

Invocation i of a dispatch runs every call of its group for index i, so an element written by one call is there for the
next one. A product reads its whole vector in every invocation; so a group must not also write that vector, and a
product that writes into its own vector cannot run at all. `groups` cuts the calls into consecutive groups: a call joins
the group before it if the work size is the same and it conflicts with no call in it, and else starts a new one.
-/
import ArrayEngine.Command.Resolve

namespace ArrayEngine.Shader

/-- a command lowered to a call -/
structure Snippet where
  command : String
  call : Call
  workSize : Nat
  deriving DecidableEq, Repr

/-- the call for an operation. Offsets count elements and are taken over as they are -/
def Call.ofOperation : Operation → Except Fault Call
  | .scale dest src factor => return .scale dest.offset src.offset (← src.length) factor
  | .product dest matrix vector =>
    return .product dest.offset matrix.offset vector.offset matrix.item.rows matrix.item.cols
  | .add dest lhs rhs => return .add dest.offset lhs.offset rhs.offset (← lhs.length)

/-- whether one call writes what another gathers. The written range is looked at only if there is a gathered one -/
def Call.gathersFrom (reader writer : Call) : Except Fault Bool := do
  match ← reader.gathered with
  | some range => return range.overlaps (← writer.written)
  | none => return false

namespace Snippet

/-- a resolved command, lowered -/
def ofResolved (r : Resolved) : Except Failure Snippet := do
  let call ← Call.ofOperation r.operation
  let workSize ← r.operation.workSize
  if ← call.gathersFrom call then
    throw (.refused (.unsupported r.operation.function.name (.readsItsResult r.text)))
  return ⟨r.text, call, workSize⟩

/-- whether two snippets cannot share a dispatch, in either order -/
def conflicts (a b : Snippet) : Except Fault Bool := do
  if ← a.call.gathersFrom b.call then return true
  b.call.gathersFrom a.call

end Snippet

/-- a run of snippets that share a dispatch -/
structure Group where
  workSize : Nat
  snippets : List Snippet
  deriving DecidableEq, Repr

namespace Group

def calls (g : Group) : List Call := g.snippets.map (·.call)

def commands (g : Group) : List String := g.snippets.map (·.command)

/-- whether some snippet of a list conflicts with `s` -/
def anyConflict (s : Snippet) : List Snippet → Except Fault Bool
  | [] => .ok false
  | t :: rest => do
    if ← t.conflicts s then return true
    anyConflict s rest

/-- whether a snippet can join a group -/
def accepts (g : Group) (s : Snippet) : Except Fault Bool :=
  if g.workSize = s.workSize then return !(← anyConflict s g.snippets) else return false

/-- the group of one snippet -/
def single (s : Snippet) : Group := ⟨s.workSize, [s]⟩

/-- the group with one more snippet -/
def push (g : Group) (s : Snippet) : Group := { g with snippets := g.snippets ++ [s] }

/-- the groups of the snippets that follow an open group -/
def close (g : Group) : List Snippet → Except Fault (List Group)
  | [] => .ok [g]
  | s :: rest => do
    if ← g.accepts s then close (g.push s) rest
    else return g :: (← close (single s) rest)

end Group

/-- the snippets in consecutive groups, each taking as many as it can -/
def groups : List Snippet → Except Fault (List Group)
  | [] => .ok []
  | s :: rest => (Group.single s).close rest

end ArrayEngine.Shader
