/-
The store of arenas, and windows onto them.

Buffers and views share arenas, so arenas live in a store and are named by handles. A `Window` is a range of numbers in
an arena; it is checked when it is used, not when it is made.
-/
import ArrayEngine.Memory.Arena

namespace ArrayEngine

/-- the handle of an arena -/
structure ArenaId where
  index : Nat
  deriving DecidableEq, Repr

/-- all arenas -/
structure Store where
  arenas : Array Arena
  deriving DecidableEq, Repr

namespace Store

def empty : Store := ⟨#[]⟩

/-- the store with one more arena, an empty one -/
def create (s : Store) : ArenaId × Store := (⟨s.arenas.size⟩, ⟨s.arenas.push .empty⟩)

/-- an arena; a handle that was not given out has an empty one -/
def arena (s : Store) (id : ArenaId) : Arena := (s.arenas[id.index]?).getD .empty

/-- the store with another arena behind a handle -/
def put (s : Store) (id : ArenaId) (a : Arena) : Store := ⟨s.arenas.setIfInBounds id.index a⟩

/-- the store with one arena changed, if the change succeeds -/
def modify (s : Store) (id : ArenaId) (f : Arena → Except Fault Arena) : Except Fault Store := do
  return s.put id (← f (s.arena id))

end Store

/-- `len` numbers of an arena, from `offset` on -/
structure Window where
  arena : ArenaId
  offset : Nat
  len : Nat
  deriving DecidableEq, Repr

namespace Window

/-- the numbers in a window -/
def read (w : Window) (s : Store) : Except Fault (List Single) := (s.arena w.arena).floats w.offset w.len

/-- the store with the numbers in a window replaced by what `f` makes of them -/
def update (w : Window) (s : Store) (f : List Single → Except Fault (List Single)) : Except Fault Store := do
  let values ← f (← w.read s)
  s.modify w.arena fun a => a.writeFloats w.offset values

end Window

end ArrayEngine
