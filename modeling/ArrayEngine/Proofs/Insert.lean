/-
What buffers do to their layout: insertion, views, and writes through a view.

- `insert_eq_ok`: when an insertion succeeds, and what it has done then;
- `laidOut_extended`: the layout is kept, the new item standing behind all others;
- `view_of_stored` and `view_of_kind_ne`: `view` answers the view of a sound record at its own kind, and refuses every
  other kind; so it does for all names of a buffer that is laid out (`view_eq_ok`);
- `data_handle`: such a view reads the elements of its item.
-/
import ArrayEngine.Proofs.Layout

namespace ArrayEngine

/-! ## The store -/

namespace Store

theorem arena_put_self {s : Store} {id : ArenaId} (h : id.index < s.arenas.size) (a : Arena) :
    (s.put id a).arena id = a := by
  simp [put, arena, h]

theorem arena_put_of_ne {s : Store} {id other : ArenaId} (h : other ≠ id) (a : Arena) :
    (s.put id a).arena other = s.arena other := by
  have : id.index ≠ other.index := fun he => h (by cases id; cases other; exact congrArg _ he.symm)
  simp [put, arena, this]

@[simp]
theorem size_put (s : Store) (id : ArenaId) (a : Arena) : (s.put id a).arenas.size = s.arenas.size := by
  simp [put]

theorem put_put (s : Store) (id : ArenaId) (a a' : Arena) : (s.put id a).put id a' = s.put id a' := by
  simp [put]

theorem put_arena_self (s : Store) (id : ArenaId) : s.put id (s.arena id) = s := by
  obtain ⟨arenas⟩ := s
  by_cases h : id.index < arenas.size
  · simp [put, arena, Array.setIfInBounds, h]
  · simp [put, Array.setIfInBounds, h]

theorem arena_create_self (s : Store) : s.create.2.arena s.create.1 = .empty := by
  simp [create, arena]

theorem arena_create_of_lt {s : Store} {id : ArenaId} (h : id.index < s.arenas.size) :
    s.create.2.arena id = s.arena id := by
  simp [create, arena, Array.getElem?_push, Nat.ne_of_lt h]

@[simp]
theorem size_create (s : Store) : s.create.2.arenas.size = s.arenas.size + 1 := by
  simp [create]

end Store

theorem Window.read_eq_ok {w : Window} {s : Store} {xs : List Single} :
    w.read s = .ok xs ↔ (w.offset + w.len < Size.bound ∧ w.offset + w.len ≤ (s.arena w.arena).size) ∧
      (s.arena w.arena).numbers w.offset w.len = xs := Arena.floats_eq_ok

/-! ## Arrays -/

theorem Shape.ofExtents?_extents (shape : Shape) : Shape.ofExtents? shape.kind shape.extents = some shape := by
  cases shape <;> rfl

theorem Shape.length_extents (shape : Shape) : shape.extents.length = shape.kind.rank := by
  cases shape <;> rfl

namespace Tensor

theorem checkWindow_eq_ok {shape : Shape} {w : Window} {u : Unit} :
    checkWindow shape w = .ok u ↔ shape.elementCount = .ok w.len := by
  simp only [checkWindow, bind_eq_ok, lift_fault_eq_ok, ite_pure_eq_ok]
  refine ⟨?_, ?_⟩
  · intro hok
    obtain ⟨_, h, rfl, -⟩ := hok
    exact h
  · exact fun h => ⟨_, h, rfl, trivial⟩

theorem bind_view_eq_ok {t t' : Tensor} {w : Window} :
    t.bind w = .ok t' ↔ t.shape.elementCount = .ok w.len ∧ ⟨t.shape, .view w⟩ = t' := by
  simp only [Tensor.bind, ArrayEngine.bind_eq_ok, checkWindow_eq_ok, exists_const, pure_eq_ok]

theorem ofView_eq_ok {kind : Kind} {extents : List Nat} {w : Window} {t : Tensor} :
    ofView kind extents w = .ok t ↔
      ∃ shape, Shape.ofExtents? kind extents = some shape ∧ shape.elementCount = .ok w.len ∧ ⟨shape, .view w⟩ = t := by
  unfold ofView
  cases Shape.ofExtents? kind extents with
  | none => simp
  | some shape =>
    simp only [ArrayEngine.bind_eq_ok, checkWindow_eq_ok, exists_const, pure_eq_ok, Option.some.injEq, exists_eq_left']

end Tensor

theorem Shape.extents_of_ofExtents? {kind : Kind} {extents : List Nat} {shape : Shape}
    (h : Shape.ofExtents? kind extents = some shape) : shape.kind = kind ∧ shape.extents = extents := by
  unfold Shape.ofExtents? at h
  split at h <;> cases h <;> exact ⟨rfl, rfl⟩

/-! ## Insertion -/

theorem Header.length_of_encode {extents : List Nat} {words : List UInt32} (h : encode extents = .ok words) :
    words.length = extents.length := (mapM_eq_ok.1 h).length_eq.symm

namespace Arena

/-- the arena with a header and the numbers after it appended -/
def extended (a : Arena) (header : List UInt32) (xs : List Single) : Arena :=
  (a.grow (header.length + xs.length)).put a.size (header ++ xs.map Single.bits)

variable (a : Arena) (header : List UInt32) (xs : List Single)

@[simp]
theorem size_extended : (a.extended header xs).size = a.size + (header.length + xs.length) := by
  simp [extended]

theorem room_extended : a.size + (header ++ xs.map Single.bits).length ≤ (a.grow (header.length + xs.length)).size := by
  simp

theorem agreeOn_extended : a.AgreeOn (a.extended header xs) 0 a.size :=
  (a.agreeOn_grow _).trans (agreeOn_put (a.room_extended header xs) (by omega))

theorem header_extended : ((a.extended header xs).words.extract a.size (a.size + header.length)).toList = header := by
  have h := extract_put (a.room_extended header xs) (i := 0) (n := header.length) (by simp)
  rwa [Nat.add_zero, List.drop_zero, List.take_left] at h

theorem numbers_extended : (a.extended header xs).numbers (a.size + header.length) xs.length = xs := by
  have h := extract_put (a.room_extended header xs) (i := header.length) (n := xs.length) (by simp)
  rw [List.drop_left, List.take_of_length_le (by simp)] at h
  rw [numbers, extended, h]
  simp [Function.comp_def]

end Arena

namespace Buffer

variable {b : Backend} {buf : Buffer b} {s : Store} {name : String} {t : Tensor} {a : Arena} {header : List UInt32}
  {xs : List Single}

/-- the view of a recorded array -/
def handle (buf : Buffer b) (item : Item) (shape : Shape) : Tensor :=
  ⟨shape, .view ⟨buf.arena, item.bodyWord b, item.count⟩⟩

/-- the record of an array that is stored at the end of an arena -/
def newItem (b : Backend) (a : Arena) (t : Tensor) : Item := ⟨t.kind, a.size * b.unitsPerWord, t.extents⟩

theorem length_header {shape : Shape} (h : b.header shape = .ok header) : header.length = b.headerSize shape.kind := by
  cases b with
  | cpu => rw [Header.length_of_encode h, shape.length_extents]; rfl
  | gpu => cases h; rfl

theorem headWord_newItem (b : Backend) (a : Arena) (t : Tensor) : (newItem b a t).headWord b = a.size := by
  cases b with
  | cpu => exact Nat.mul_div_cancel _ (by decide)
  | gpu => exact Nat.mul_one _

theorem bodyWord_newItem (h : b.header t.shape = .ok header) : (newItem b a t).bodyWord b = a.size + header.length := by
  rw [Item.bodyWord_eq, headWord_newItem, length_header h]
  rfl

theorem count_newItem (h : t.shape.elementCount = .ok xs.length) : (newItem b a t).count = xs.length :=
  (Size.product_eq_ok h).symm

theorem stored_newItem (hheader : b.header t.shape = .ok header) (hcount : t.shape.elementCount = .ok xs.length) :
    (newItem b a t).Stored b (a.extended header xs) where
  ranked := t.shape.length_extents
  counted := (count_newItem (b := b) (a := a) hcount).symm ▸ hcount
  aligned := Nat.mul_mod_left _ _
  inside := by
    rw [Item.endWord, bodyWord_newItem hheader, count_newItem hcount, Arena.size_extended]
    omega
  headed := by
    intro heq
    subst heq
    have hrank : (newItem .cpu a t).kind.rank = header.length := (length_header hheader).symm
    have hword : (newItem .cpu a t).offset / Size.wordBytes = a.size := headWord_newItem .cpu a t
    rw [Arena.headerExtents_eq_ok, hword, hrank, Arena.header_extended, Arena.size_extended]
    exact ⟨by omega, Header.decode_encode hheader⟩

theorem elements_newItem (hheader : b.header t.shape = .ok header) (hcount : t.shape.elementCount = .ok xs.length) :
    (newItem b a t).elements b (a.extended header xs) = xs := by
  rw [Item.elements, bodyWord_newItem hheader, count_newItem hcount, Arena.numbers_extended]

theorem offsetOfWord_eq_ok {word offset : Nat} (h : Size.wordBytes * word < Size.bound) :
    b.offsetOfWord word = .ok offset ↔ word * b.unitsPerWord = offset := by
  cases b with
  | cpu =>
    rw [Nat.mul_comm] at h
    exact Size.mul_eq_ok.trans ⟨fun h => h.2, fun h' => ⟨h, h'⟩⟩
  | gpu => simp [Backend.offsetOfWord, Backend.unitsPerWord]

/-- an insertion succeeds if the name is free, the header can be written, the elements can be read and are as many as
the shape says, and there is room; it then appends header and elements, records them, and answers their view -/
theorem insert_eq_ok {r : Store × Buffer b × Tensor} :
    buf.insert s name t = .ok r ↔
      ∃ header xs, buf.directory.get? name = none ∧ b.header t.shape = .ok header ∧ t.data s = .ok xs ∧
        t.shape.elementCount = .ok xs.length ∧
        Size.wordBytes * ((s.arena buf.arena).size + (header.length + xs.length)) < Size.allocationBound ∧
        (s.put buf.arena ((s.arena buf.arena).extended header xs),
          (⟨buf.arena, ⟨buf.directory.items.put name (newItem b (s.arena buf.arena) t)⟩⟩ : Buffer b),
          buf.handle (newItem b (s.arena buf.arena) t) t.shape) = r := by
  simp only [insert, bind_eq_ok, lift_fault_eq_ok, lift_refusal_eq_ok, Directory.ensureVacant_eq_ok, Size.add_eq_ok,
    Arena.append_eq_ok, Tensor.bind_view_eq_ok, Directory.insert_eq_ok, pure_eq_ok, Arena.write_eq_ok]
  refine ⟨?_, ?_⟩
  · intro hok
    obtain ⟨_, hfree, header, hheader, xs, hxs, _, ⟨-, rfl⟩, _, ⟨hcap, rfl⟩, _, ⟨-, rfl⟩, offset, hoffset, _,
      ⟨hcount, rfl⟩, _, ⟨-, rfl⟩, rfl⟩ := hok
    have hbytes := Size.lt_bound_of_allocatable hcap
    obtain rfl := (offsetOfWord_eq_ok (by simp only [Size.wordBytes] at *; omega)).1 hoffset
    refine ⟨header, xs, hfree, hheader, hxs, hcount, hcap, ?_⟩
    simp only [handle, bodyWord_newItem hheader, count_newItem hcount]
    rfl
  · intro hspec
    obtain ⟨header, xs, hfree, hheader, hxs, hcount, hcap, rfl⟩ := hspec
    have hbytes := Size.lt_bound_of_allocatable hcap
    have hroom := (s.arena buf.arena).room_extended header xs
    refine ⟨(), hfree, header, hheader, xs, hxs, _, ⟨by simp only [Size.wordBytes] at hbytes; omega, rfl⟩, _,
      ⟨hcap, rfl⟩, _, ⟨⟨?_, hroom⟩, rfl⟩, _,
      (offsetOfWord_eq_ok (by simp only [Size.wordBytes] at *; omega)).2 rfl, _, ⟨hcount, rfl⟩, _, ⟨hfree, rfl⟩, ?_⟩
    · simp only [Size.wordBytes, List.length_append, List.length_map] at *
      omega
    · simp only [handle, bodyWord_newItem hheader, count_newItem hcount]
      rfl

/-- an insertion keeps the layout -/
theorem laidOut_extended (h : LaidOut b buf.directory a) (hfree : buf.directory.get? name = none)
    (hheader : b.header t.shape = .ok header) (hcount : t.shape.elementCount = .ok xs.length)
    (hcap : Size.wordBytes * (a.size + (header.length + xs.length)) < Size.allocationBound) :
    LaidOut b ⟨buf.directory.items.put name (newItem b a t)⟩ (a.extended header xs) := by
  have hgrown : LaidOut b buf.directory (a.extended header xs) :=
    h.grow (by simpa using hcap) (by simp) (a.agreeOn_extended header xs)
  apply hgrown.record (stored_newItem hheader hcount) hfree
  intro _ item' hi
  rw [headWord_newItem]
  exact (h.stored hi).inside

/-! ## Views -/

/-- a name cannot be viewed at another kind than its own -/
theorem view_of_kind_ne {item : Item} (hi : buf.directory.get? name = some item) {kind : Kind} (hk : kind ≠ item.kind) :
    buf.view s name kind = .error (.refused (.kindMismatch name kind item.kind)) := by
  have hget : buf.directory.getKind name kind = .error (.kindMismatch name kind item.kind) := by
    simp only [Directory.getKind, Directory.get, hi, ok_bind, if_neg (Ne.symm hk)]
    rfl
  simp only [view, hget]
  rfl

/-- a sound record can be viewed at its own kind -/
theorem view_of_stored {item : Item} (hi : buf.directory.get? name = some item)
    (hs : item.Stored b (s.arena buf.arena)) {shape : Shape}
    (hshape : Shape.ofExtents? item.kind item.shape = some shape) :
    buf.view s name item.kind = .ok (buf.handle item shape) := by
  simp only [view, bind_eq_ok, lift_fault_eq_ok, lift_refusal_eq_ok, Directory.getKind_eq_ok, Tensor.ofView_eq_ok]
  obtain ⟨-, hext⟩ := Shape.extents_of_ofExtents? hshape
  refine ⟨item, ⟨hi, rfl⟩, item.shape, ?_, item.count, hs.counted, shape, hshape, ?_, rfl⟩
  · cases b with
    | cpu =>
      simp only [Backend.extentsOf, hs.checkHeader, hs.headed rfl]
      simp [liftM, monadLift, MonadLift.monadLift, Except.mapError]
    | gpu => rfl
  · rw [Shape.elementCount, hext]
    exact hs.counted

/-- on a buffer that is laid out, a name can be viewed at its own kind and at no other -/
theorem view_eq_ok (h : LaidOut b buf.directory (s.arena buf.arena)) {kind : Kind} :
    buf.view s name kind = .ok t ↔
      ∃ item shape, buf.directory.get? name = some item ∧ item.kind = kind ∧
        Shape.ofExtents? kind item.shape = some shape ∧ buf.handle item shape = t := by
  refine ⟨?_, ?_⟩
  · intro hok
    have hview := hok
    simp only [view, bind_eq_ok, lift_refusal_eq_ok, Directory.getKind_eq_ok] at hview
    obtain ⟨item, ⟨hget, rfl⟩, -⟩ := hview
    obtain ⟨shape, hshape, -, -⟩ := (h.stored hget).exists_shape
    have hsame := view_of_stored hget (h.stored hget) hshape
    exact ⟨item, shape, hget, rfl, hshape, Except.ok.inj (hsame.symm.trans hok)⟩
  · intro hspec
    obtain ⟨item, shape, hget, rfl, hshape, rfl⟩ := hspec
    exact view_of_stored hget (h.stored hget) hshape

/-- the view of an item reads the elements of the item -/
theorem data_handle (h : LaidOut b buf.directory (s.arena buf.arena)) {item : Item}
    (hi : buf.directory.get? name = some item) (shape : Shape) :
    (buf.handle item shape).data s = .ok (item.elements b (s.arena buf.arena)) := by
  exact Window.read_eq_ok.2 ⟨⟨h.endWord_lt hi, (h.stored hi).inside⟩, rfl⟩

end Buffer

end ArrayEngine
