/-
Buffers: named arrays laid out one after the other in one arena.

The two backends lay them out differently. On the CPU an array is preceded by a header that records its extents, and
offsets count bytes; on the GPU there is no header and offsets count elements. Everything else is the same: `insert`
appends an array to the arena, records it in the directory and turns it into a view of its new place; `view` gives a
recorded array back as a view. An insertion that fails leaves everything as it was.
-/
import ArrayEngine.Directory
import ArrayEngine.Tensor

namespace ArrayEngine

/-- where computations run -/
inductive Backend where
  | cpu
  | gpu
  deriving DecidableEq, Repr

/-- refuses an offset at which no header of a kind can stand -/
def Arena.checkHeader (a : Arena) (kind : Kind) (offset : Nat) : Except EngineError Unit :=
  if offset % Size.wordBytes = 0 ∧ offset + Size.wordBytes * kind.rank ≤ a.byteSize then .ok ()
  else .error (.incompatibleBuffer (.noHeader kind offset a.byteSize))

/-- the extents in the header at a byte offset -/
def Arena.headerExtents (a : Arena) (kind : Kind) (offset : Nat) : Except Fault (List Nat) := do
  let word := offset / Size.wordBytes
  return Header.decode (← a.slice word (word + kind.rank))

namespace Backend

def name : Backend → String
  | cpu => "cpu"
  | gpu => "gpu"

/-- the words that precede the elements of an array -/
def header : Backend → Shape → Except EngineError (List UInt32)
  | cpu, shape => Header.encode shape.extents
  | gpu, _ => .ok []

/-- a word of the arena as an offset -/
def offsetOfWord : Backend → Nat → Except Fault Nat
  | cpu, word => Size.mul word Size.wordBytes
  | gpu, word => .ok word

/-- the word of the first element of an array that was recorded at an offset -/
def elementWord : Backend → Kind → Nat → Nat
  | cpu, kind, offset => offset / Size.wordBytes + kind.rank
  | gpu, _, offset => offset

/-- the extents of a recorded array; where there is a header it must agree with the record -/
def extentsOf : Backend → Arena → String → Item → Except Failure (List Nat)
  | cpu, arena, name, item => do
    arena.checkHeader item.kind item.offset
    let extents ← arena.headerExtents item.kind item.offset
    if extents = item.shape then return extents
    else throw (.refused (.incompatibleBuffer (.header name extents item.shape)))
  | gpu, _, _, item => .ok item.shape

end Backend

/-- named arrays in one arena -/
structure Buffer (b : Backend) where
  arena : ArenaId
  directory : Directory
  deriving DecidableEq

namespace Buffer

variable {b : Backend}

/-- a new buffer, with an arena of its own -/
def create (b : Backend) (s : Store) : Buffer b × Store :=
  let (id, s) := s.create
  (⟨id, .empty⟩, s)

/-- bytes of the arena -/
def byteSize (buf : Buffer b) (s : Store) : Nat := (s.arena buf.arena).byteSize

/-- the array appended to the arena and recorded under the name: the new store, the new buffer, and the array as a
view -/
def insert (buf : Buffer b) (s : Store) (name : String) (t : Tensor) :
    Except Failure (Store × Buffer b × Tensor) := do
  buf.directory.ensureVacant name
  let header ← b.header t.shape
  let elements ← t.data s
  let (start, arena) ← (s.arena buf.arena).append (← Size.add header.length elements.length)
  let arena ← arena.write start (header ++ elements.map Single.bits)
  let offset ← b.offsetOfWord start
  let t ← t.bind ⟨buf.arena, start + header.length, elements.length⟩
  let directory ← buf.directory.insert name ⟨t.kind, offset, t.extents⟩
  return (s.put buf.arena arena, { buf with directory := directory }, t)

/-- the array recorded under a name, as a view -/
def view (buf : Buffer b) (s : Store) (name : String) (kind : Kind) : Except Failure Tensor := do
  let item ← buf.directory.getKind name kind
  let extents ← b.extentsOf (s.arena buf.arena) name item
  let count ← item.elementCount
  Tensor.ofView kind extents ⟨buf.arena, b.elementWord item.kind item.offset, count⟩

/-- the bytes of a recorded array, with its header -/
def itemBytes (buf : Buffer .cpu) (s : Store) (name : String) : Except Failure (List UInt8) := do
  let item ← buf.directory.get name
  let len ← Size.mul Size.wordBytes (← Size.add item.kind.rank (← item.elementCount))
  (s.arena buf.arena).readBytes item.offset len

/-- the extents in the header at a byte offset -/
def decodeShape (buf : Buffer .cpu) (s : Store) (kind : Kind) (offset : Nat) : Except Failure (List Nat) := do
  let arena := s.arena buf.arena
  arena.checkHeader kind offset
  arena.headerExtents kind offset

/-- all bytes of the arena -/
def bytes (buf : Buffer .gpu) (s : Store) : List UInt8 := (s.arena buf.arena).bytes

/-- the arena overwritten with bytes, which must be as many as it has -/
def loadBytes (buf : Buffer .gpu) (s : Store) (bytes : List UInt8) : Except EngineError Store :=
  let held := (s.arena buf.arena).byteSize
  if held = bytes.length then .ok (s.put buf.arena (.ofBytes bytes))
  else .error (.device (.loadSize bytes.length held))

end Buffer

end ArrayEngine
