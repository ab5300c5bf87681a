/-
Where the arrays of a buffer stand in its arena.

A recorded item takes the words from `headWord` up to `endWord`: a header, on the CPU only, and from `bodyWord` on the
elements. `Stored` says of one item that its record is sound and that its words are there, `LaidOut` of a directory that
every item is stored and that the words of two names are apart.

What keeps a layout:
- `LaidOut.transfer`: any change that neither shortens the arena nor touches a header;
- `LaidOut.put`: numbers written in place of the elements of one item, which changes these elements (`elements_put`) and
  no others (`elements_put_of_ne`);
- `LaidOut.record`: an item at the end of the arena, under a name that is not taken.
-/
import ArrayEngine.Proofs.Memory

namespace ArrayEngine

/-! ## The words of an item -/

namespace Backend

/-- the word at an offset -/
def wordAt : Backend → Nat → Nat
  | cpu, offset => offset / Size.wordBytes
  | gpu, offset => offset

/-- how many words the header of an array has -/
def headerSize : Backend → Kind → Nat
  | cpu, kind => kind.rank
  | gpu, _ => 0

/-- the unit of offsets: how many of them a word takes -/
def unitsPerWord : Backend → Nat
  | cpu => Size.wordBytes
  | gpu => 1

theorem elementWord_eq (b : Backend) (kind : Kind) (offset : Nat) :
    b.elementWord kind offset = b.wordAt offset + b.headerSize kind := by
  cases b <;> rfl

end Backend

namespace Item

/-- the number of elements, where it is a size -/
def count (item : Item) : Nat := item.shape.prod

/-- the first word, where there is a header that of the header -/
def headWord (b : Backend) (item : Item) : Nat := b.wordAt item.offset

/-- the word of the first element -/
def bodyWord (b : Backend) (item : Item) : Nat := b.elementWord item.kind item.offset

/-- the word after the last element -/
def endWord (b : Backend) (item : Item) : Nat := item.bodyWord b + item.count

theorem bodyWord_eq (b : Backend) (item : Item) : item.bodyWord b = item.headWord b + b.headerSize item.kind :=
  b.elementWord_eq item.kind item.offset

/-- the elements as they stand in an arena -/
def elements (b : Backend) (item : Item) (a : Arena) : List Single := a.numbers (item.bodyWord b) item.count

theorem elements_congr {b : Backend} {item : Item} {a a' : Arena} (h : a.AgreeOn a' (item.bodyWord b) item.count) :
    item.elements b a' = item.elements b a := Arena.numbers_congr h

/-- a vector has one extent, the number of its elements -/
theorem shape_of_vector {item : Item} (hrank : item.shape.length = item.kind.rank) (hk : item.kind = .vector) :
    item.shape = [item.count] := by
  rw [hk] at hrank
  obtain ⟨n, hn⟩ := List.length_eq_one_iff.1 hrank
  rw [count, hn, List.prod_singleton]

/-- a matrix has two extents, its rows and its columns -/
theorem shape_of_matrix {item : Item} (hrank : item.shape.length = item.kind.rank) (hk : item.kind = .matrix) :
    item.shape = [item.rows, item.cols] := by
  rw [hk] at hrank
  obtain ⟨m, n, hmn⟩ := List.length_eq_two.1 hrank
  simp [rows, cols, hk, hmn]

/-- a sound record of an array that lies in an arena -/
structure Stored (b : Backend) (a : Arena) (item : Item) : Prop where
  ranked : item.shape.length = item.kind.rank
  counted : item.elementCount = .ok item.count
  aligned : item.offset % b.unitsPerWord = 0
  inside : item.endWord b ≤ a.size
  headed : b = .cpu → a.headerExtents item.kind item.offset = .ok item.shape

namespace Stored

variable {b : Backend} {a a' : Arena} {item : Item}

/-- an item has a shape, that of its kind with its extents -/
theorem exists_shape (h : item.Stored b a) :
    ∃ shape, Shape.ofExtents? item.kind item.shape = some shape ∧ shape.kind = item.kind ∧
      shape.extents = item.shape := by
  obtain ⟨kind, offset, shape⟩ := item
  have hlen := h.ranked
  cases kind <;> simp only [Kind.rank] at hlen
  · obtain ⟨n, rfl⟩ := List.length_eq_one_iff.1 hlen
    exact ⟨.vector n, rfl, rfl, rfl⟩
  · obtain ⟨m, n, rfl⟩ := List.length_eq_two.1 hlen
    exact ⟨.matrix m n, rfl, rfl, rfl⟩
  · obtain ⟨l, m, n, rfl⟩ := List.length_eq_three.1 hlen
    exact ⟨.array3 l m n, rfl, rfl, rfl⟩

theorem vector_shape (h : item.Stored b a) (hk : item.kind = .vector) : item.shape = [item.count] :=
  shape_of_vector h.ranked hk

theorem matrix_shape (h : item.Stored b a) (hk : item.kind = .matrix) : item.shape = [item.rows, item.cols] :=
  shape_of_matrix h.ranked hk

theorem length_elements (h : item.Stored b a) : (item.elements b a).length = item.count :=
  Arena.length_numbers h.inside

/-- a header can stand where an item says -/
theorem checkHeader (h : item.Stored .cpu a) : a.checkHeader item.kind item.offset = .ok () := by
  have hal := h.aligned
  have hin := h.inside
  have hbody := item.bodyWord_eq .cpu
  simp only [Item.endWord, Item.headWord, Backend.wordAt, Backend.headerSize, Backend.unitsPerWord, Size.wordBytes] at *
  rw [Arena.checkHeader, if_pos]
  simp only [Arena.byteSize, Size.wordBytes]
  omega

theorem transfer (h : item.Stored b a) (hsize : a.size ≤ a'.size)
    (hag : a.AgreeOn a' (item.headWord b) (b.headerSize item.kind)) : item.Stored b a' where
  ranked := h.ranked
  counted := h.counted
  aligned := h.aligned
  inside := h.inside.trans hsize
  headed := by
    intro heq
    subst heq
    exact Arena.headerExtents_congr (h.headed rfl) hsize hag

end Stored

end Item

/-! ## Directories -/

namespace Directory

@[simp]
theorem get?_empty (name : String) : Directory.empty.get? name = none := rfl

theorem ensureVacant_eq_ok {d : Directory} {name : String} {u : Unit} :
    d.ensureVacant name = .ok u ↔ d.get? name = none := by
  unfold ensureVacant NameMap.contains
  change (if (d.get? name).isSome then _ else _) = _ ↔ _
  cases d.get? name <;> simp

theorem insert_eq_ok {d d' : Directory} {name : String} {item : Item} :
    d.insert name item = .ok d' ↔ d.get? name = none ∧ ⟨d.items.put name item⟩ = d' := by
  simp only [insert, bind_eq_ok, ensureVacant_eq_ok, exists_const, pure_eq_ok]

theorem get?_put_self (d : Directory) (name : String) (item : Item) :
    (Directory.mk (d.items.put name item)).get? name = some item := d.items.get?_put_self name item

theorem get?_put_of_ne (d : Directory) {name other : String} (h : other ≠ name) (item : Item) :
    (Directory.mk (d.items.put name item)).get? other = d.get? other := d.items.get?_put_of_ne h item

theorem get_eq_ok {d : Directory} {name : String} {item : Item} : d.get name = .ok item ↔ d.get? name = some item := by
  unfold get
  cases d.get? name <;> simp

theorem getKind_eq_ok {d : Directory} {name : String} {kind : Kind} {item : Item} :
    d.getKind name kind = .ok item ↔ d.get? name = some item ∧ item.kind = kind := by
  simp only [getKind, bind_eq_ok, get_eq_ok, ite_pure_eq_ok]
  refine ⟨?_, ?_⟩
  · intro hok
    obtain ⟨i, h, hk, rfl⟩ := hok
    exact ⟨h, hk⟩
  · intro hspec
    obtain ⟨h, hk⟩ := hspec
    exact ⟨item, h, hk, rfl⟩

end Directory

/-! ## Layouts -/

/-- the items of a directory lie in an arena, the words of different names apart -/
structure LaidOut (b : Backend) (d : Directory) (a : Arena) : Prop where
  stored : ∀ {name item}, d.get? name = some item → item.Stored b a
  apart : ∀ {name name' item item'}, name ≠ name' → d.get? name = some item → d.get? name' = some item' →
    item.endWord b ≤ item'.headWord b ∨ item'.endWord b ≤ item.headWord b
  capacity : Size.wordBytes * a.size < Size.allocationBound

namespace LaidOut

variable {b : Backend} {d : Directory} {a a' : Arena} {name other : String} {item item' : Item}

theorem empty (b : Backend) : LaidOut b .empty .empty where
  stored h := by simp at h
  apart _ h := by simp at h
  capacity := by decide

/-- an arena has room to spare below the bound of sizes -/
theorem two_mul_size_lt (h : LaidOut b d a) : 2 * a.size < Size.bound := by
  have hcap := h.capacity
  simp only [Size.wordBytes, Size.allocationBound, Size.bound] at *
  omega

theorem size_lt (h : LaidOut b d a) : a.size < Size.bound :=
  lt_of_le_of_lt (Nat.le_mul_of_pos_left _ Nat.two_pos) h.two_mul_size_lt

theorem endWord_lt (h : LaidOut b d a) (hi : d.get? name = some item) : item.endWord b < Size.bound :=
  lt_of_le_of_lt (h.stored hi).inside h.size_lt

/-- a layout outlives every change that keeps the headers -/
theorem transfer (h : LaidOut b d a) (hsize : a.size ≤ a'.size)
    (hcap : Size.wordBytes * a'.size < Size.allocationBound)
    (hag : ∀ {name item}, d.get? name = some item → a.AgreeOn a' (item.headWord b) (b.headerSize item.kind)) :
    LaidOut b d a' where
  stored hi := (h.stored hi).transfer hsize (hag hi)
  apart := h.apart
  capacity := hcap

/-- without headers, a layout outlives every change of the words -/
theorem of_size {d : Directory} (h : LaidOut .gpu d a) (hsize : a'.size = a.size) : LaidOut .gpu d a' :=
  h.transfer hsize.ge (hsize ▸ h.capacity) fun _ _ hi hi' => absurd hi' (Nat.not_lt.2 hi)

/-- words that stand at the body of an item, apart from those of other names -/
theorem body_apart (h : LaidOut b d a) (hne : name ≠ other) (hi : d.get? name = some item)
    (ho : d.get? other = some item') :
    item.bodyWord b + item.count ≤ item'.headWord b ∨ item'.bodyWord b + item'.count ≤ item.bodyWord b := by
  have hd := h.apart hne hi ho
  have he := item.bodyWord_eq b
  simp only [Item.endWord] at hd
  omega

/-- numbers written in place of elements leave every header as it was -/
theorem header_put (h : LaidOut b d a) (hi : d.get? name = some item) {values : List UInt32}
    (hlen : values.length = item.count) (ho : d.get? other = some item') :
    a.AgreeOn (a.put (item.bodyWord b) values) (item'.headWord b) (b.headerSize item'.kind) := by
  have hin := (h.stored hi).inside
  simp only [Item.endWord, ← hlen] at hin
  refine Arena.agreeOn_put hin ?_
  have he := item.bodyWord_eq b
  have he' := item'.bodyWord_eq b
  by_cases hne : name = other
  · subst hne
    obtain rfl : item = item' := Option.some.inj (hi.symm.trans ho)
    omega
  · have hd := h.body_apart hne hi ho
    omega

theorem put (h : LaidOut b d a) (hi : d.get? name = some item) {values : List UInt32}
    (hlen : values.length = item.count) : LaidOut b d (a.put (item.bodyWord b) values) :=
  h.transfer (by simp) (by simpa using h.capacity) fun ho => h.header_put hi hlen ho

theorem elements_put (h : LaidOut b d a) (hi : d.get? name = some item) {xs : List Single}
    (hlen : xs.length = item.count) : item.elements b (a.put (item.bodyWord b) (xs.map Single.bits)) = xs := by
  have hin := (h.stored hi).inside
  simp only [Item.endWord, ← hlen] at hin
  rw [Item.elements, ← hlen]
  exact Arena.numbers_put hin

theorem elements_put_of_ne (h : LaidOut b d a) (hi : d.get? name = some item) {values : List UInt32}
    (hlen : values.length = item.count) (hne : other ≠ name) (ho : d.get? other = some item') :
    item'.elements b (a.put (item.bodyWord b) values) = item'.elements b a := by
  have hin := (h.stored hi).inside
  simp only [Item.endWord, ← hlen] at hin
  refine Item.elements_congr (Arena.agreeOn_put hin ?_)
  have hd := h.body_apart hne ho hi
  have he := item.bodyWord_eq b
  omega

/-- appended words leave every item as it was -/
theorem grow (h : LaidOut b d a) (hcap : Size.wordBytes * a'.size < Size.allocationBound) (hsize : a.size ≤ a'.size)
    (hag : a.AgreeOn a' 0 a.size) : LaidOut b d a' := by
  refine h.transfer hsize hcap fun {_ item} hi => hag.mono (Nat.zero_le _) ?_
  have hin := (h.stored hi).inside
  have he := item.bodyWord_eq b
  simp only [Item.endWord] at hin
  omega

theorem elements_grow (h : LaidOut b d a) (hag : a.AgreeOn a' 0 a.size) (hi : d.get? name = some item) :
    item.elements b a' = item.elements b a := by
  have hin := (h.stored hi).inside
  simp only [Item.endWord] at hin
  exact Item.elements_congr (hag.mono (Nat.zero_le _) (by omega))

/-- an item under a new name, stored behind all others -/
theorem record (h : LaidOut b d a) (hitem : item.Stored b a) (hfree : d.get? name = none)
    (hbehind : ∀ {other item'}, d.get? other = some item' → item'.endWord b ≤ item.headWord b) :
    LaidOut b ⟨d.items.put name item⟩ a where
  stored {n i} hi := by
    by_cases hn : n = name
    · subst hn
      rw [Directory.get?_put_self] at hi
      cases hi
      exact hitem
    · rw [Directory.get?_put_of_ne d hn] at hi
      exact h.stored hi
  apart {n n' i i'} hne hi hi' := by
    by_cases hn : n = name
    · subst hn
      rw [Directory.get?_put_self] at hi
      cases hi
      rw [Directory.get?_put_of_ne d (Ne.symm hne)] at hi'
      exact .inr (hbehind hi')
    · rw [Directory.get?_put_of_ne d hn] at hi
      by_cases hn' : n' = name
      · subst hn'
        rw [Directory.get?_put_self] at hi'
        cases hi'
        exact .inl (hbehind hi)
      · rw [Directory.get?_put_of_ne d hn'] at hi'
        exact h.apart hne hi hi'
  capacity := h.capacity

end LaidOut

end ArrayEngine
