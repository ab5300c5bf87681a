/-
Insertion is all or nothing, and a view gives back what was inserted.

`Buffer.insert` answers what there is afterwards, all at once. `Insertion.perform` does the same as a program does it,
one change after the other: the arena grows, header and elements are written, the array is bound to its new place, and
at last the name is recorded; what was changed stays changed if a later step fails.
- `Backend.header_eq`: a header is refused for the first extent that does not fit a word, and else records the extents;
- `perform_eq`: after the first change no step can fail. So an insertion, step by step, ends as `insert` says, and one
  that fails has changed nothing;
- `Inserted` is what a success comes to, and `inserted_extended` says that it always comes to that: the arena has grown
  by the array, everything else is as before, and views and bytes of the name give the array back;
- `insert_all_or_nothing`: so it is for every buffer and every array of a session.
-/
import ArrayEngine.Proofs.Arrays

namespace ArrayEngine

/-! ## Headers -/

theorem Header.encode_eq (extents : List Nat) :
    encode extents = match extents.find? (UInt32.size ≤ ·) with
      | some n => .error (.shapeMismatch "insert" (.extentRange n))
      | none => .ok (extents.map UInt32.ofNat) := by
  induction extents with
  | nil => rfl
  | cons n rest ih =>
    unfold encode at ih ⊢
    rw [List.mapM_cons, ih, List.find?_cons]
    by_cases hn : n < UInt32.size
    · have hfits : decide (UInt32.size ≤ n) = false := decide_eq_false (Nat.not_le.2 hn)
      rw [if_pos hn, hfits]
      cases rest.find? (UInt32.size ≤ ·) <;> rfl
    · have hlarge : decide (UInt32.size ≤ n) = true := decide_eq_true (Nat.not_lt.1 hn)
      rw [if_neg hn, hlarge]
      rfl

namespace Backend

/-- the first extent of an array that a header has no room for -/
def oversized? : Backend → Shape → Option Nat
  | cpu, shape => shape.extents.find? (UInt32.size ≤ ·)
  | gpu, _ => none

/-- the words of a header, where every extent fits -/
def headerWords : Backend → Shape → List UInt32
  | cpu, shape => shape.extents.map UInt32.ofNat
  | gpu, _ => []

theorem header_eq (b : Backend) (shape : Shape) :
    b.header shape = match b.oversized? shape with
      | some n => .error (.shapeMismatch "insert" (.extentRange n))
      | none => .ok (b.headerWords shape) := by
  cases b with
  | cpu => exact Header.encode_eq shape.extents
  | gpu => rfl

theorem header_of_fits {b : Backend} {shape : Shape} (h : b.oversized? shape = none) :
    b.header shape = .ok (b.headerWords shape) := by
  rw [header_eq, h]

/-- only the host writes headers, and an extent is oversized if it does not fit a word -/
theorem oversized?_isSome {b : Backend} {shape : Shape} :
    (∃ n, b.oversized? shape = some n) ↔ b = .cpu ∧ ∃ n ∈ shape.extents, UInt32.size ≤ n := by
  cases b with
  | cpu => simp [oversized?, ← Option.isSome_iff_exists]
  | gpu => simp [oversized?]

end Backend

/-! ## Appended words -/

theorem Bytes.ofWords_append (ws ws' : List UInt32) : ofWords (ws ++ ws') = ofWords ws ++ ofWords ws' :=
  List.flatMap_append

namespace Arena

theorem overwrite_append (words : Array UInt32) (i : Nat) (vs vs' : List UInt32) :
    overwrite words i (vs ++ vs') = overwrite (overwrite words i vs) (i + vs.length) vs' := by
  induction vs generalizing words i with
  | nil => rfl
  | cons v vs ih =>
    rw [List.cons_append, overwrite, ih, overwrite, List.length_cons, Nat.add_right_comm, Nat.add_assoc]

/-- header and elements are written one after the other -/
theorem put_put_extended (a : Arena) (header : List UInt32) (xs : List Single) :
    ((a.grow (header.length + xs.length)).put a.size header).put (a.size + header.length) (xs.map Single.bits) =
      a.extended header xs := by
  rw [extended, put, put, put, overwrite_append]

/-- words can be written where an arena was grown by at least as many -/
theorem write_grow {a : Arena} {values : List UInt32} {n : Nat} (hn : values.length ≤ n)
    (hbound : a.size + n < Size.bound) : (a.grow n).write a.size values = .ok ((a.grow n).put a.size values) := by
  refine write_eq_ok.2 ⟨⟨by omega, ?_⟩, rfl⟩
  rw [size_grow]
  omega

/-- and behind a header there is room for the elements -/
theorem writeFloats_grow {a : Arena} {header : List UInt32} {xs : List Single}
    (hbound : a.size + (header.length + xs.length) < Size.bound) :
    ((a.grow (header.length + xs.length)).put a.size header).writeFloats (a.size + header.length) xs =
      .ok (a.extended header xs) := by
  refine write_eq_ok.2 ⟨⟨?_, ?_⟩, put_put_extended a header xs⟩
  · rw [List.length_map]
    omega
  · rw [List.length_map, size_put, size_grow]
    omega

/-- words written where an arena was grown by as many stand behind its own -/
theorem toList_put_grow (a : Arena) (values : List UInt32) :
    ((a.grow values.length).put a.size values).words.toList = a.words.toList ++ values := by
  have hsize : a.words.toList.length = a.size := Array.length_toList
  apply List.ext_getElem?
  intro j
  rw [Array.getElem?_toList, put, getElem?_overwrite _ _ _ (a.size_grow values.length).ge]
  split_ifs with hj
  · rw [List.getElem?_append_right (by omega), hsize]
  · rcases Nat.lt_or_ge j a.size with hlt | hge
    · rw [List.getElem?_append_left (by omega), Array.getElem?_toList]
      exact Array.getElem?_append_left hlt
    · have hend : a.size + values.length ≤ j := by omega
      rw [List.getElem?_eq_none (by rw [List.length_append]; omega),
        Array.getElem?_eq_none ((a.size_grow values.length).le.trans hend)]

theorem toList_extended (a : Arena) (header : List UInt32) (xs : List Single) :
    (a.extended header xs).words.toList = a.words.toList ++ (header ++ xs.map Single.bits) := by
  have hlen : header.length + xs.length = (header ++ xs.map Single.bits).length := by
    rw [List.length_append, List.length_map]
  rw [extended, hlen, toList_put_grow]

/-- the bytes behind an arena that was extended are those of the header, then those of the elements -/
theorem readBytes_extended {a : Arena} {header : List UInt32} {xs : List Single}
    (hbound : Size.wordBytes * (a.size + (header.length + xs.length)) < Size.bound) :
    (a.extended header xs).readBytes a.bytes.length (Size.wordBytes * (header.length + xs.length)) =
      .ok (Bytes.ofWords header ++ Bytes.ofWords (xs.map Single.bits)) := by
  have hread : (a.extended header xs).bytes =
      a.bytes ++ (Bytes.ofWords header ++ Bytes.ofWords (xs.map Single.bits)) := by
    rw [bytes, toList_extended, Bytes.ofWords_append, Bytes.ofWords_append]
    rfl
  have hlen : Size.wordBytes * (header.length + xs.length) =
      (Bytes.ofWords header ++ Bytes.ofWords (xs.map Single.bits)).length := by
    rw [List.length_append, Bytes.length_ofWords, Bytes.length_ofWords, List.length_map, Nat.mul_add]
  have hend : a.bytes.length + Size.wordBytes * (header.length + xs.length) =
      Size.wordBytes * (a.size + (header.length + xs.length)) := by
    rw [a.length_bytes, byteSize, ← Nat.mul_add]
  simp only [readBytes, bind_eq_ok, Size.add_eq_ok, ite_pure_eq_ok]
  refine ⟨_, ⟨?_, rfl⟩, ?_, ?_⟩
  · rw [hend]
    exact hbound
  · rw [hend, byteSize, size_extended]
  · rw [hread, List.drop_left, hlen, List.take_length]

end Arena

/-! ## Insertion, one change after the other -/

/-- what an insertion works on: all arenas, a buffer, and the array that was handed in -/
structure Insertion (b : Backend) where
  store : Store
  buffer : Buffer b
  array : Tensor

namespace Insertion

variable {b : Backend}

/-- the arena of the buffer -/
def arena (i : Insertion b) : Arena := i.store.arena i.buffer.arena

def withArena (i : Insertion b) (a : Arena) : Insertion b := { i with store := i.store.put i.buffer.arena a }

/-- something that is checked or computed and changes nothing -/
def ask {α : Type} (f : Insertion b → Except Failure α) : EStateM Failure (Insertion b) α := fun i =>
  match f i with
  | .ok a => .ok a i
  | .error e => .error e i

/-- header and elements written to words that were appended for them, the array bound to them, and the name recorded -/
def settle (name : String) (header : List UInt32) (elements : List Single) (start : Nat) :
    EStateM Failure (Insertion b) Unit := do
  Run.attempt fun i => do return i.withArena (← i.arena.write start header)
  Run.attempt fun i => do return i.withArena (← i.arena.writeFloats (start + header.length) elements)
  let offset ← ask fun _ => b.offsetOfWord start
  Run.attempt fun i => do
    return { i with array := ← i.array.bind ⟨i.buffer.arena, start + header.length, elements.length⟩ }
  Run.attempt fun i => do
    let directory ← i.buffer.directory.insert name ⟨i.array.kind, offset, i.array.extents⟩
    return { i with buffer := { i.buffer with directory := directory } }

/-- an insertion as a program performs it. What a step has changed stays changed if a later one fails -/
def perform (name : String) : EStateM Failure (Insertion b) Unit := do
  ask fun i => i.buffer.directory.ensureVacant name
  let header ← ask fun i => b.header i.array.shape
  let elements ← ask fun i => i.array.data i.store
  let (start, grown) ← ask fun i => do i.arena.append (← Size.add header.length elements.length)
  modify (·.withArena grown)
  settle name header elements start

section

variable {α : Type} {f : Insertion b → Except Failure α} {g : Insertion b → Except Failure (Insertion b)}
  {i i' : Insertion b}

theorem ask_bind {β : Type} (f : Insertion b → Except Failure α) (k : α → EStateM Failure (Insertion b) β)
    (i : Insertion b) :
    (ask f >>= k) i = match f i with
      | .ok a => k a i
      | .error e => .error e i := by
  change EStateM.bind (ask f) k i = _
  unfold EStateM.bind ask
  cases f i <;> rfl

theorem attempt_bind {β : Type} (k : Unit → EStateM Failure (Insertion b) β) :
    (Run.attempt g >>= k) i = match g i with
      | .ok i' => k () i'
      | .error e => .error e i := by
  change EStateM.bind (Run.attempt g) k i = _
  unfold EStateM.bind Run.attempt
  cases g i <;> rfl

theorem attempt_of_ok (h : g i = .ok i') : Run.attempt g i = .ok () i' := by
  simp only [Run.attempt, h]

end

variable {buf : Buffer b} {s : Store} {name : String} {t : Tensor} {xs : List Single}

theorem arena_withArena {i : Insertion b} (hlt : i.buffer.arena.index < i.store.arenas.size) (a : Arena) :
    (i.withArena a).arena = a := Store.arena_put_self hlt a

theorem buffer_withArena (i : Insertion b) (a : Arena) : (i.withArena a).buffer = i.buffer := rfl

theorem array_withArena (i : Insertion b) (a : Arena) : (i.withArena a).array = i.array := rfl

theorem withArena_withArena (i : Insertion b) (a a' : Arena) : (i.withArena a).withArena a' = i.withArena a' := by
  simp only [withArena, Store.put_put]

/-- once the arena has grown, no step fails -/
theorem settle_eq {i : Insertion b} (hlt : i.buffer.arena.index < i.store.arenas.size) {header : List UInt32}
    (hheader : b.header i.array.shape = .ok header) (hcount : i.array.shape.elementCount = .ok xs.length)
    (hfree : i.buffer.directory.get? name = none)
    (hcap : Size.wordBytes * (i.arena.size + (header.length + xs.length)) < Size.allocationBound) :
    settle name header xs i.arena.size (i.withArena (i.arena.grow (header.length + xs.length))) =
      .ok () ⟨i.store.put i.buffer.arena (i.arena.extended header xs),
        ⟨i.buffer.arena, ⟨i.buffer.directory.items.put name (Buffer.newItem b i.arena i.array)⟩⟩,
        i.buffer.handle (Buffer.newItem b i.arena i.array) i.array.shape⟩ := by
  have hbytes := Size.lt_bound_of_allocatable hcap
  have hwords : i.arena.size + (header.length + xs.length) < Size.bound :=
    (Nat.le_mul_of_pos_left _ (by decide)).trans_lt hbytes
  have hstart : Size.wordBytes * i.arena.size < Size.bound :=
    (Nat.mul_le_mul_left _ (Nat.le_add_right _ _)).trans_lt hbytes
  have hwrite := Arena.write_grow (Nat.le_add_right header.length xs.length) hwords
  have hfloats := Arena.writeFloats_grow hwords
  have hoffset : b.offsetOfWord i.arena.size = .ok (i.arena.size * b.unitsPerWord) :=
    (Buffer.offsetOfWord_eq_ok hstart).2 rfl
  have hbind : i.array.bind ⟨i.buffer.arena, i.arena.size + header.length, xs.length⟩ =
      .ok (i.buffer.handle (Buffer.newItem b i.arena i.array) i.array.shape) := by
    refine Tensor.bind_view_eq_ok.2 ⟨hcount, ?_⟩
    rw [Buffer.handle, Buffer.bodyWord_newItem hheader, Buffer.count_newItem hcount]
  have hinsert := Directory.insert_eq_ok.2 ⟨hfree, rfl (a := Directory.mk (i.buffer.directory.items.put name
    (Buffer.newItem b i.arena i.array)))⟩
  simp only [settle, attempt_bind, ask_bind, arena_withArena hlt, withArena_withArena, buffer_withArena,
    array_withArena, hwrite, hfloats, hoffset, hbind, ok_lift_fault, ok_bind, pure_eq]
  apply attempt_of_ok
  change (liftM (i.buffer.directory.insert name (Buffer.newItem b i.arena i.array)) >>= _) = _
  rw [hinsert]
  rfl

/-- **All or nothing.** An insertion, one change after the other, ends as `Buffer.insert` says; where that fails,
nothing was changed. -/
theorem perform_eq (hlt : buf.arena.index < s.arenas.size) (ht : t.Sound) (hxs : t.data s = .ok xs) (name : String) :
    perform name ⟨s, buf, t⟩ = match buf.insert s name t with
      | .ok (s', buf', t') => .ok () ⟨s', buf', t'⟩
      | .error e => .error e ⟨s, buf, t⟩ := by
  unfold perform Buffer.insert
  simp only [ask_bind, hxs]
  cases hvacant : buf.directory.ensureVacant name with
  | error e => rfl
  | ok _ =>
    cases hheader : b.header t.shape with
    | error e => rfl
    | ok header =>
      simp only [ok_lift_fault, ok_lift_refusal, ok_bind]
      cases hlen : Size.add header.length xs.length with
      | error f => rfl
      | ok n =>
        obtain ⟨-, rfl⟩ := Size.add_eq_ok.1 hlen
        simp only [ok_lift_fault, ok_bind, arena]
        cases happend : (s.arena buf.arena).append (header.length + xs.length) with
        | error f => rfl
        | ok r =>
          obtain ⟨hcap, rfl⟩ := Arena.append_eq_ok.1 happend
          have hfree := Directory.ensureVacant_eq_ok.1 hvacant
          have hcount := ht.elementCount_data hxs
          have hinsert := Buffer.insert_eq_ok.2 ⟨header, xs, hfree, hheader, hxs, hcount, hcap, rfl⟩
          simp only [Buffer.insert, hvacant, hheader, hxs, ok_lift_fault, ok_lift_refusal, ok_bind, hlen, happend]
            at hinsert
          simp only [ok_lift_fault, ok_bind, hinsert]
          exact settle_eq (i := ⟨s, buf, t⟩) hlt hheader hcount hfree hcap

end Insertion

/-! ## What an insertion comes to -/

/-- the bytes that an array takes in the arena of a buffer -/
def Backend.storedBytes : Backend → Tensor → Except Fault Nat
  | cpu, t => t.byteSize
  | gpu, t => do Size.mul Size.wordBytes (← t.elementCount)

/-- the bytes that a host buffer answers for a name are the words of the header and then those of the elements -/
def Backend.Serialized : (b : Backend) → Buffer b → Store → String → Tensor → List Single → Prop
  | cpu, buf, s, name, t, xs =>
    buf.itemBytes s name = .ok (Bytes.ofWords (t.extents.map UInt32.ofNat) ++ Bytes.ofWords (xs.map Single.bits))
  | gpu, _, _, _, _, _ => True

namespace Buffer

variable {b : Backend} {buf : Buffer b} {s : Store} {name : String} {t : Tensor} {xs : List Single}

/-- what there is after the insertion of an array with the elements `xs`: a store, a buffer, and the array as a view -/
structure Inserted (buf : Buffer b) (s : Store) (name : String) (t : Tensor) (xs : List Single) (s' : Store)
    (buf' : Buffer b) (t' : Tensor) : Prop where
  grown : ∃ n, b.storedBytes t = .ok n ∧ (s'.arena buf.arena).byteSize = (s.arena buf.arena).byteSize + n
  kept : (s.arena buf.arena).AgreeOn (s'.arena buf.arena) 0 (s.arena buf.arena).size
  others : ∀ id ≠ buf.arena, s'.arena id = s.arena id
  arena : buf'.arena = buf.arena
  entries : ∀ other ≠ name, buf'.directory.get? other = buf.directory.get? other
  isView : t'.isView = true
  shape : t'.shape = t.shape
  data : t'.data s' = .ok xs
  view : buf'.view s' name t.kind = .ok t'
  mismatch : ∀ kind ≠ t.kind, buf'.view s' name kind = .error (.refused (.kindMismatch name kind t.kind))
  serialized : b.Serialized buf' s' name t xs

theorem insert_of_taken {item : Item} (h : buf.directory.get? name = some item) :
    buf.insert s name t = .error (.refused (.duplicateBinding name)) := by
  have hvacant : buf.directory.ensureVacant name = .error (.duplicateBinding name) := by
    have hcontains : buf.directory.items.contains name = true := by
      rw [NameMap.contains]
      exact Option.isSome_iff_exists.2 ⟨item, h⟩
    rw [Directory.ensureVacant, if_pos hcontains]
  rw [insert, hvacant]
  rfl

theorem insert_of_oversized (hfree : buf.directory.get? name = none) {n : Nat} (h : b.oversized? t.shape = some n) :
    buf.insert s name t = .error (.refused (.shapeMismatch "insert" (.extentRange n))) := by
  have hvacant : buf.directory.ensureVacant name = .ok () := Directory.ensureVacant_eq_ok.2 hfree
  rw [insert, hvacant, Backend.header_eq, h]
  rfl

/-- where there is no room, no array is appended. This is the limit of the address space, not an answer -/
theorem insert_of_full (hfree : buf.directory.get? name = none) (hfits : b.oversized? t.shape = none)
    (hxs : t.data s = .ok xs)
    (hfull : ¬ Size.wordBytes * ((s.arena buf.arena).size + ((b.headerWords t.shape).length + xs.length)) <
      Size.allocationBound) :
    ∃ fault, buf.insert s name t = .error (.fault fault) := by
  have hvacant : buf.directory.ensureVacant name = .ok () := Directory.ensureVacant_eq_ok.2 hfree
  have hheader : b.header t.shape = .ok (b.headerWords t.shape) := Backend.header_of_fits hfits
  rw [insert, hvacant, hheader, hxs]
  simp only [ok_lift_fault, ok_lift_refusal, ok_bind]
  cases hlen : Size.add (b.headerWords t.shape).length xs.length with
  | error f => exact ⟨f, rfl⟩
  | ok n =>
    obtain ⟨-, rfl⟩ := Size.add_eq_ok.1 hlen
    cases happend : (s.arena buf.arena).append ((b.headerWords t.shape).length + xs.length) with
    | error f =>
      refine ⟨f, ?_⟩
      rw [ok_lift_fault, ok_bind, happend]
      rfl
    | ok r => exact absurd (Arena.append_eq_ok.1 happend).1 hfull

theorem storedBytes_eq {header : List UInt32} (hheader : b.header t.shape = .ok header)
    (hcount : t.elementCount = .ok xs.length) (hcap : Size.wordBytes * (header.length + xs.length) < Size.bound) :
    b.storedBytes t = .ok (Size.wordBytes * (header.length + xs.length)) := by
  have hlen := length_header hheader
  simp only [Size.wordBytes] at hcap
  cases b with
  | cpu =>
    have hrank : t.kind.rank = header.length := hlen.symm
    simp only [Backend.storedBytes, Tensor.byteSize, hcount, hrank, ok_bind, bind_eq_ok, Size.add_eq_ok, Size.mul_eq_ok]
    exact ⟨_, ⟨by omega, rfl⟩, by simpa only [Size.wordBytes] using hcap, rfl⟩
  | gpu =>
    cases hheader
    simp only [Backend.storedBytes, hcount, ok_bind, Size.mul_eq_ok, List.length_nil, Nat.zero_add]
    exact ⟨by simpa [Size.wordBytes] using hcap, trivial⟩

/-- the bytes of the last item of a host arena: those of its header, then those of its elements -/
theorem itemBytes_newItem {buf : Buffer .cpu} {a : Arena} {header : List UInt32}
    (hi : buf.directory.get? name = some (newItem .cpu a t)) (ha : s.arena buf.arena = a.extended header xs)
    (hheader : Backend.header .cpu t.shape = .ok header) (hcount : t.elementCount = .ok xs.length)
    (hcap : Size.wordBytes * (a.size + (header.length + xs.length)) < Size.allocationBound) :
    buf.itemBytes s name = .ok (Bytes.ofWords header ++ Bytes.ofWords (xs.map Single.bits)) := by
  have hbytes := Size.lt_bound_of_allocatable hcap
  have hsize : Size.wordBytes * (header.length + xs.length) < Size.bound :=
    (Nat.mul_le_mul_left _ (Nat.le_add_left _ _)).trans_lt hbytes
  have hrank : (newItem .cpu a t).kind.rank = header.length := (length_header hheader).symm
  have hcounted : (newItem .cpu a t).elementCount = .ok xs.length := hcount
  have hoffset : (newItem .cpu a t).offset = a.bytes.length := by
    rw [a.length_bytes, Arena.byteSize, Nat.mul_comm]
    rfl
  simp only [itemBytes, bind_eq_ok, lift_fault_eq_ok, lift_refusal_eq_ok, Directory.get_eq_ok, Size.add_eq_ok,
    Size.mul_eq_ok, ha]
  refine ⟨_, hi, _, hcounted, _, ⟨?_, rfl⟩, _, ⟨?_, rfl⟩, ?_⟩
  · rw [hrank]
    exact (Nat.le_mul_of_pos_left _ (by decide)).trans_lt hsize
  · rw [hrank]
    exact hsize
  · rw [hrank, hoffset]
    exact Arena.readBytes_extended hbytes

/-- **What was inserted.** An insertion that succeeds has appended the array and changed nothing else; the name gives
the array back. -/
theorem inserted_extended (hlt : buf.arena.index < s.arenas.size) (hfits : b.oversized? t.shape = none)
    (hcount : t.elementCount = .ok xs.length)
    (hcap : Size.wordBytes * ((s.arena buf.arena).size + ((b.headerWords t.shape).length + xs.length)) <
      Size.allocationBound) :
    buf.Inserted s name t xs (s.put buf.arena ((s.arena buf.arena).extended (b.headerWords t.shape) xs))
      ⟨buf.arena, ⟨buf.directory.items.put name (newItem b (s.arena buf.arena) t)⟩⟩
      (buf.handle (newItem b (s.arena buf.arena) t) t.shape) := by
  have hheader : b.header t.shape = .ok (b.headerWords t.shape) := Backend.header_of_fits hfits
  have hbytes := Size.lt_bound_of_allocatable hcap
  simp only [Size.wordBytes] at hbytes
  have hget : (⟨buf.arena, ⟨buf.directory.items.put name (newItem b (s.arena buf.arena) t)⟩⟩ : Buffer b).directory.get?
      name = some (newItem b (s.arena buf.arena) t) := Directory.get?_put_self _ _ _
  have harena := s.arena_put_self hlt ((s.arena buf.arena).extended (b.headerWords t.shape) xs)
  have hstored : (newItem b (s.arena buf.arena) t).Stored b
      ((s.put buf.arena ((s.arena buf.arena).extended (b.headerWords t.shape) xs)).arena buf.arena) := by
    rw [harena]
    exact stored_newItem hheader hcount
  have hview := view_of_stored (s := s.put buf.arena ((s.arena buf.arena).extended (b.headerWords t.shape) xs))
    hget hstored t.shape.ofExtents?_extents
  refine ⟨⟨_, storedBytes_eq hheader hcount ?_, ?_⟩, ?_, fun id hne => Store.arena_put_of_ne hne _, rfl,
    fun other hne => Directory.get?_put_of_ne _ hne _, rfl, rfl, Window.read_eq_ok.2 ⟨?_, ?_⟩,
    hview, fun kind hk => view_of_kind_ne hget hk, ?_⟩
  · simp only [Size.wordBytes]
    omega
  · rw [harena, Arena.byteSize, Arena.size_extended, Nat.mul_add]
    rfl
  · rw [harena]
    exact Arena.agreeOn_extended _ _ xs
  · rw [bodyWord_newItem hheader, count_newItem hcount, harena, Arena.size_extended]
    dsimp only
    omega
  · rw [bodyWord_newItem hheader, count_newItem hcount, harena, Arena.numbers_extended]
  · cases b with
    | cpu => exact itemBytes_newItem hget harena hheader hcount hcap
    | gpu => trivial

/-- an insertion is refused if the name is taken, or if the header has no room for some extent -/
theorem insert_refused (hxs : t.data s = .ok xs) (ht : t.Sound) :
    (∃ e, buf.insert s name t = .error (.refused e)) ↔
      (∃ item, buf.directory.get? name = some item) ∨ ∃ n, b.oversized? t.shape = some n := by
  cases hget : buf.directory.get? name with
  | some item => exact ⟨fun _ => .inl ⟨item, rfl⟩, fun _ => ⟨_, insert_of_taken hget⟩⟩
  | none =>
    cases hover : b.oversized? t.shape with
    | some n => exact ⟨fun _ => .inr ⟨n, rfl⟩, fun _ => ⟨_, insert_of_oversized hget hover⟩⟩
    | none =>
      have hheader : b.header t.shape = .ok (b.headerWords t.shape) := Backend.header_of_fits hover
      refine ⟨fun hrefused => ?_, by simp⟩
      obtain ⟨e, he⟩ := hrefused
      by_cases hcap : Size.wordBytes * ((s.arena buf.arena).size + ((b.headerWords t.shape).length + xs.length)) <
          Size.allocationBound
      · have hok := insert_eq_ok.2 ⟨_, xs, hget, hheader, hxs, ht.elementCount_data hxs, hcap, rfl⟩
        rw [hok] at he
        cases he
      · obtain ⟨f, hf⟩ := insert_of_full hget hover hxs hcap
        rw [hf] at he
        cases he

end Buffer

/-! ## Sessions -/

namespace Session

variable {δ : Type} [Device δ] [LawfulDevice δ]

/-- **Insertions of a session.** Whatever was done before, for every buffer, every name and every array that can be
read: an insertion, one change after the other, ends as `Buffer.insert` says, and where that fails, arena, directory and
array are as they were. It is refused exactly if the name is taken or, on the host, some extent does not fit a word.
Else it succeeds while there is room, and `Inserted` says what that comes to. -/
theorem insert_all_or_nothing (actions : List (Action δ)) {i : Nat} {b : Backend} {buf : Buffer b}
    (hx : (run .empty actions).buffers[i]? = some ⟨b, buf⟩) (name : String) {t : Tensor} (ht : t.Made)
    {xs : List Single} (hxs : t.data (run .empty actions).store = .ok xs) :
    (Insertion.perform name ⟨(run .empty actions).store, buf, t⟩ =
      match buf.insert (run .empty actions).store name t with
      | .ok (s', buf', t') => .ok () ⟨s', buf', t'⟩
      | .error e => .error e ⟨(run .empty actions).store, buf, t⟩) ∧
    ((∃ e, buf.insert (run .empty actions).store name t = .error (.refused e)) ↔
      (∃ item, buf.directory.get? name = some item) ∨ b = .cpu ∧ ∃ n ∈ t.extents, UInt32.size ≤ n) ∧
    (∀ item, buf.directory.get? name = some item →
      buf.insert (run .empty actions).store name t = .error (.refused (.duplicateBinding name))) ∧
    (buf.directory.get? name = none → ∀ n, b.oversized? t.shape = some n →
      buf.insert (run .empty actions).store name t =
        .error (.refused (.shapeMismatch "insert" (.extentRange n)))) ∧
    (buf.directory.get? name = none → b.oversized? t.shape = none →
      if Size.wordBytes * (((run .empty actions).store.arena buf.arena).size +
          ((b.headerWords t.shape).length + xs.length)) < Size.allocationBound then
        ∃ s' buf' t', buf.insert (run .empty actions).store name t = .ok (s', buf', t') ∧
          buf.Inserted (run .empty actions).store name t xs s' buf' t'
      else ∃ fault, buf.insert (run .empty actions).store name t = .error (.fault fault)) := by
  have hwf := (wellFormed_run wellFormed_empty actions).1
  have hlt : buf.arena.index < (run .empty actions).store.arenas.size := hwf.lt_size hx
  have hcount := ht.sound.elementCount_data hxs
  refine ⟨Insertion.perform_eq hlt ht.sound hxs name, ?_, fun item hitem => Buffer.insert_of_taken hitem,
    fun hfree n hn => Buffer.insert_of_oversized hfree hn, ?_⟩
  · rw [Buffer.insert_refused hxs ht.sound, Backend.oversized?_isSome]
    rfl
  · intro hfree hfits
    have hheader : b.header t.shape = .ok (b.headerWords t.shape) := Backend.header_of_fits hfits
    split_ifs with hcap
    · exact ⟨_, _, _, Buffer.insert_eq_ok.2 ⟨_, xs, hfree, hheader, hxs, hcount, hcap, rfl⟩,
        Buffer.inserted_extended hlt hfits hcount hcap⟩
    · exact Buffer.insert_of_full hfree hfits hxs hcap

/-- a matrix in a buffer, still in hand as a view of it -/
def aliased : List (Action HostDevice) := [.create .cpu, .own (.matrix 1 2) [⟨0x3f800000⟩, .zero], .insert 0 "m" 0]

/-- a view of the arena that grows is inserted once more, under another name -/
theorem insert_all_or_nothing_aliased : ∃ (buf : Buffer .cpu) (t : Tensor) (s' : Store) (buf' : Buffer .cpu)
    (t' : Tensor), (run .empty aliased).buffers[0]? = some ⟨.cpu, buf⟩ ∧ t ∈ (run .empty aliased).handles ∧
    buf.insert (run .empty aliased).store "n" t = .ok (s', buf', t') ∧ buf'.view s' "n" .matrix = .ok t' ∧
    t'.data s' = .ok [⟨0x3f800000⟩, .zero] := by
  have hbuf : ((run .empty aliased).buffer? .cpu 0).map (fun buf =>
      (buf.directory.get? "n", ((run .empty aliased).store.arena buf.arena).size)) = some (none, 4) := by
    decide +kernel
  have harray : (run .empty aliased).handles[0]?.map (fun t =>
      (t.shape, (t.data (run .empty aliased).store).toOption)) = some (.matrix 1 2, some [⟨0x3f800000⟩, .zero]) := by
    decide +kernel
  obtain ⟨buf, hx, hget⟩ := Option.map_eq_some_iff.1 hbuf
  obtain ⟨t, ht, hread⟩ := Option.map_eq_some_iff.1 harray
  obtain ⟨hfree, hsize⟩ := Prod.mk.inj hget
  obtain ⟨hshape, hxs⟩ := Prod.mk.inj hread
  have hmem := List.mem_of_getElem? ht
  have hmade := made_run (s := .empty) (by simp [empty]) aliased t hmem
  obtain ⟨-, -, -, -, hgood⟩ :=
    insert_all_or_nothing aliased (buffers_of_buffer? hx) "n" hmade (toOption_eq_some.1 hxs)
  have hfits : Backend.cpu.oversized? t.shape = none := by
    rw [hshape]
    decide
  have hroom : Size.wordBytes * (((run .empty aliased).store.arena buf.arena).size +
      ((Backend.cpu.headerWords t.shape).length + [(⟨0x3f800000⟩ : Single), .zero].length)) < Size.allocationBound := by
    rw [hsize, hshape]
    decide
  have hok := hgood hfree hfits
  rw [if_pos hroom] at hok
  obtain ⟨s', buf', t', hins, h⟩ := hok
  have hview := h.view
  rw [Tensor.kind, hshape] at hview
  exact ⟨buf, t, s', buf', t', buffers_of_buffer? hx, hmem, hins, hview, h.data⟩

end Session

end ArrayEngine
