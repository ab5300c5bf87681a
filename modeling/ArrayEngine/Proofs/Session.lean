/-
Sessions: buffers and handles under any order of operations.

A session holds buffers of both backends and the arrays that a program has in hand: arrays that own their elements, and
the views that insertion and `view` answer. An `Action` is one operation on it; one that fails leaves the session as it
is. Runs of actions are arbitrary, so what holds after every run holds whatever a program does.
- `WellFormed` is the invariant: every buffer has an arena of its own and is laid out in it, and every view in hand is
  the window of some item. `wellFormed_next` is the step, `wellFormed_run` the run;
- `Extends` says what an action leaves alone: buffers keep their place and their entries (`extends_run`).
-/
import ArrayEngine.Proofs.CpuRun
import ArrayEngine.Proofs.Device

namespace ArrayEngine

/-! ## Sessions -/

/-- a change of numbers that keeps how many they are -/
structure Rewrite where
  apply : List Single → Except Fault (List Single)
  keeps : ∀ {xs ys}, apply xs = .ok ys → ys.length = xs.length

/-- a buffer of either backend -/
structure AnyBuffer where
  backend : Backend
  buffer : Buffer backend

namespace AnyBuffer

def arena (x : AnyBuffer) : ArenaId := x.buffer.arena

def directory (x : AnyBuffer) : Directory := x.buffer.directory

/-- a buffer in the place of another one, with every entry of it -/
def Extends (x' x : AnyBuffer) : Prop :=
  x'.backend = x.backend ∧ x'.arena = x.arena ∧
    ∀ (name : String) (item : Item), x.directory.get? name = some item → x'.directory.get? name = some item

theorem Extends.refl (x : AnyBuffer) : x.Extends x := ⟨rfl, rfl, fun _ _ h => h⟩

/-- a buffer with one more entry -/
theorem extends_record {x : AnyBuffer} {name : String} (hfree : x.directory.get? name = none) (item : Item) :
    Extends ⟨x.backend, ⟨x.arena, ⟨x.directory.items.put name item⟩⟩⟩ x := by
  refine ⟨rfl, rfl, ?_⟩
  intro n i hi
  have hne : n ≠ name := by
    intro hn
    rw [hn, hfree] at hi
    cases hi
  exact (x.directory.get?_put_of_ne hne item).trans hi

end AnyBuffer

/-- the arenas, the buffers and the arrays in hand -/
structure Session where
  store : Store
  buffers : List AnyBuffer
  handles : List Tensor

/-- an operation on a session. Buffers and handles are named by their position; an execution is of any description
compiled against any directory, or of any computation on any executor -/
inductive Action (δ : Type) where
  | create (b : Backend)
  | own (shape : Shape) (data : List Single)
  | copy (handle : Nat)
  | insert (buffer : Nat) (name : String) (handle : Nat)
  | view (buffer : Nat) (name : String) (kind : Kind)
  | write (handle : Nat) (change : Rewrite)
  | append (buffer count : Nat)
  | load (buffer : Nat) (bytes : List UInt8)
  | runCpu (buffer : Nat) (d : Directory) (description : Description) (n : Nat)
  | runGpu (buffer : Nat) (e : Gpu.Executor δ) (c : Gpu.Computation) (n : Nat)

namespace Session

def empty : Session := ⟨.empty, [], []⟩

variable {δ : Type} [Device δ]

/-- the session after an operation, if it succeeds -/
def next (s : Session) : Action δ → Option Session
  | .create b =>
    let (buf, store) := Buffer.create b s.store
    some { s with store := store, buffers := s.buffers ++ [⟨b, buf⟩] }
  | .own shape data => do
    let t ← (Tensor.ofData shape data).toOption
    return { s with handles := s.handles ++ [t] }
  | .copy handle => do
    let t ← (← s.handles[handle]?).copy s.store |>.toOption
    return { s with handles := s.handles ++ [t] }
  | .insert buffer name handle => do
    let x ← s.buffers[buffer]?
    let (store, buf, t) ← (x.buffer.insert s.store name (← s.handles[handle]?)).toOption
    return ⟨store, s.buffers.set buffer ⟨x.backend, buf⟩, s.handles.set handle t⟩
  | .view buffer name kind => do
    let t ← ((← s.buffers[buffer]?).buffer.view s.store name kind).toOption
    return { s with handles := s.handles ++ [t] }
  | .write handle change => do
    let (store, t) ← ((← s.handles[handle]?).update s.store change.apply).toOption
    return { s with store := store, handles := s.handles.set handle t }
  | .append buffer count => do
    let x ← s.buffers[buffer]?
    let (_, a) ← ((s.store.arena x.buffer.arena).append count).toOption
    return { s with store := s.store.put x.buffer.arena a }
  | .load buffer bytes => do
    match ← s.buffers[buffer]? with
    | ⟨.cpu, _⟩ => none
    | ⟨.gpu, buf⟩ => return { s with store := ← (buf.loadBytes s.store bytes).toOption }
  | .runCpu buffer d description n => do
    match ← s.buffers[buffer]? with
    | ⟨.cpu, buf⟩ =>
      let c ← (Cpu.compile d description).toOption
      return { s with store := (Cpu.execute c buf s.store n).store }
    | ⟨.gpu, _⟩ => none
  | .runGpu buffer e c n => do
    match ← s.buffers[buffer]? with
    | ⟨.cpu, _⟩ => none
    | ⟨.gpu, buf⟩ => return { s with store := (e.execute c buf s.store n).store }

/-- the session after an operation; one that fails leaves it as it is -/
def step (s : Session) (a : Action δ) : Session := (s.next a).getD s

def run (s : Session) (actions : List (Action δ)) : Session := actions.foldl step s

/-- a buffer of the given backend, by its position -/
def buffer? (s : Session) (b : Backend) (i : Nat) : Option (Buffer b) :=
  s.buffers[i]?.bind fun x => if h : x.backend = b then some (h ▸ x.buffer) else none

theorem buffers_of_buffer? {s : Session} {b : Backend} {i : Nat} {buf : Buffer b} (h : s.buffer? b i = some buf) :
    s.buffers[i]? = some ⟨b, buf⟩ := by
  obtain ⟨⟨b', buf'⟩, hx, hbuf⟩ := Option.bind_eq_some_iff.1 h
  split_ifs at hbuf with hb
  subst hb
  cases hbuf
  exact hx

/-! ## The invariant -/

/-- a handle that is a view is the window of some item -/
def Held (s : Session) (t : Tensor) : Prop :=
  ∀ w, t.storage = .view w → ∃ (x : AnyBuffer) (name : String) (item : Item), s.buffers[w.arena.index]? = some x ∧
    x.directory.get? name = some item ∧ w = ⟨x.arena, item.bodyWord x.backend, item.count⟩

/-- every buffer has an arena of its own, in which it is laid out, and every view in hand is the window of an item -/
structure WellFormed (s : Session) : Prop where
  size : s.store.arenas.size = s.buffers.length
  placed : ∀ {i : Nat} {x : AnyBuffer}, s.buffers[i]? = some x → x.arena = ⟨i⟩
  laidOut : ∀ {i : Nat} {x : AnyBuffer}, s.buffers[i]? = some x →
    LaidOut x.backend x.directory (s.store.arena x.arena)
  held : ∀ {t : Tensor}, t ∈ s.handles → s.Held t

/-- the buffers of a session are still there: each in its place, with every entry it had -/
def Extends (s' s : Session) : Prop :=
  ∀ (i : Nat) (x : AnyBuffer), s.buffers[i]? = some x → ∃ x', s'.buffers[i]? = some x' ∧ x'.Extends x

theorem Extends.refl (s : Session) : s.Extends s := fun _ x hx => ⟨x, hx, .refl x⟩

theorem Extends.trans {s s' s'' : Session} (h : s'.Extends s) (h' : s''.Extends s') : s''.Extends s := by
  intro i x hx
  obtain ⟨y, hy, hyb, hya, hyd⟩ := h i x hx
  obtain ⟨z, hz, hzb, hza, hzd⟩ := h' i y hy
  exact ⟨z, hz, hzb.trans hyb, hza.trans hya, fun name item hi => hzd name item (hyd name item hi)⟩

theorem Held.of_extends {s s' : Session} {t : Tensor} (h : s'.Extends s) (ht : s.Held t) : s'.Held t := by
  intro w hw
  obtain ⟨x, name, item, hx, hi, rfl⟩ := ht w hw
  obtain ⟨x', hx', hb, ha, hd⟩ := h _ x hx
  exact ⟨x', name, item, hx', hd name item hi, by rw [hb, ha]⟩

theorem getElem?_concat_eq_some {α : Type} {xs : List α} {x y : α} {i : Nat} :
    (xs ++ [y])[i]? = some x ↔ xs[i]? = some x ∨ i = xs.length ∧ x = y := by
  by_cases h : i < xs.length
  · simp [List.getElem?_append_left h, Nat.ne_of_lt h]
  · rw [List.getElem?_append_right (by omega), List.getElem?_singleton, List.getElem?_eq_none (Nat.not_lt.1 h)]
    by_cases hi : i = xs.length
    · simp [hi, eq_comm]
    · have : i - xs.length ≠ 0 := by omega
      simp [hi, this]

theorem getElem?_set_eq_some {α : Type} {xs : List α} {x y : α} {i j : Nat} (h : (xs.set i y)[j]? = some x) :
    j = i ∧ x = y ∨ j ≠ i ∧ xs[j]? = some x := by
  by_cases hij : j = i
  · subst hij
    obtain ⟨hj, hxy⟩ := List.getElem?_eq_some_iff.1 h
    rw [List.getElem_set_self] at hxy
    exact .inl ⟨rfl, hxy.symm⟩
  · rw [List.getElem?_set_ne (Ne.symm hij)] at h
    exact .inr ⟨hij, h⟩

/-- one more buffer -/
theorem extends_concat (s : Session) (store : Store) (x : AnyBuffer) (handles : List Tensor) :
    Extends ⟨store, s.buffers ++ [x], handles⟩ s :=
  fun _ y hy => ⟨y, getElem?_concat_eq_some.2 (.inl hy), .refl y⟩

/-- a buffer replaced by one that extends it -/
theorem extends_set {s : Session} {i : Nat} {x y : AnyBuffer} (hx : s.buffers[i]? = some x) (hy : y.Extends x)
    (store : Store) (handles : List Tensor) : Extends ⟨store, s.buffers.set i y, handles⟩ s := by
  intro j z hz
  by_cases hij : i = j
  · subst hij
    obtain rfl : x = z := Option.some.inj (hx.symm.trans hz)
    exact ⟨y, List.getElem?_set_self (List.getElem?_eq_some_iff.1 hx).1, hy⟩
  · exact ⟨z, (List.getElem?_set_ne hij).trans hz, .refl z⟩

theorem held_owned (s : Session) (shape : Shape) (data : List Single) : s.Held ⟨shape, .owned data⟩ := by
  intro w hw
  cases hw

/-- the view of an item is held -/
theorem held_handle {s : Session} (h : s.WellFormed) {i : Nat} {x : AnyBuffer} (hx : s.buffers[i]? = some x)
    {name : String}
    {item : Item} (hi : x.directory.get? name = some item) (shape : Shape) : s.Held (x.buffer.handle item shape) := by
  intro w hw
  cases hw
  refine ⟨x, name, item, ?_, hi, rfl⟩
  have ha : x.buffer.arena = ⟨i⟩ := h.placed hx
  rw [ha]
  exact hx

theorem wellFormed_empty : empty.WellFormed where
  size := rfl
  placed h := by simp [empty] at h
  laidOut h := by simp [empty] at h
  held h := by simp [empty] at h

namespace WellFormed

variable {s : Session} {i : Nat} {x : AnyBuffer}

theorem lt_size (h : s.WellFormed) (hx : s.buffers[i]? = some x) : x.arena.index < s.store.arenas.size := by
  rw [h.placed hx, h.size]
  exact (List.getElem?_eq_some_iff.1 hx).1

/-- one more array in hand -/
theorem hold (h : s.WellFormed) {t : Tensor} (ht : s.Held t) :
    ({ s with handles := s.handles ++ [t] } : Session).WellFormed where
  size := h.size
  placed := h.placed
  laidOut := h.laidOut
  held {u} hu := by
    rcases List.mem_append.1 hu with hu | hu
    · exact h.held hu
    · obtain rfl := List.mem_singleton.1 hu
      exact ht

/-- an array in hand replaced -/
theorem replace (h : s.WellFormed) {t : Tensor} (ht : s.Held t) (k : Nat) :
    ({ s with handles := s.handles.set k t } : Session).WellFormed where
  size := h.size
  placed := h.placed
  laidOut := h.laidOut
  held {u} hu := by
    rcases List.mem_or_eq_of_mem_set hu with hu | rfl
    · exact h.held hu
    · exact ht

/-- a buffer replaced by one that extends it, in an arena that the new one is laid out in -/
theorem update (h : s.WellFormed) (hx : s.buffers[i]? = some x) {y : AnyBuffer} (hy : y.Extends x) {a : Arena}
    (ha : LaidOut y.backend y.directory a) :
    ({ s with store := s.store.put x.arena a, buffers := s.buffers.set i y } : Session).WellFormed where
  size := by simpa using h.size
  placed {j z} hz := by
    rcases getElem?_set_eq_some hz with ⟨rfl, rfl⟩ | ⟨-, hz⟩
    · exact hy.2.1.trans (h.placed hx)
    · exact h.placed hz
  laidOut {j z} hz := by
    rcases getElem?_set_eq_some hz with ⟨rfl, rfl⟩ | ⟨hj, hz⟩
    · rw [hy.2.1, Store.arena_put_self (h.lt_size hx)]
      exact ha
    · have hne : z.arena ≠ x.arena := by
        rw [h.placed hz, h.placed hx]
        exact fun he => hj (congrArg ArenaId.index he)
      rw [Store.arena_put_of_ne hne]
      exact h.laidOut hz
  held ht := (h.held ht).of_extends (extends_set hx hy _ _)

/-- an arena changed in any way that its buffer is still laid out in -/
theorem put (h : s.WellFormed) (hx : s.buffers[i]? = some x) {a : Arena} (ha : LaidOut x.backend x.directory a) :
    ({ s with store := s.store.put x.arena a } : Session).WellFormed := by
  have hset : s.buffers.set i x = s.buffers := by
    obtain ⟨hi, rfl⟩ := List.getElem?_eq_some_iff.1 hx
    exact List.set_getElem_self hi
  have hup := h.update hx (.refl x) ha
  rwa [hset] at hup

/-- a new buffer, with an arena of its own -/
theorem create (h : s.WellFormed) (b : Backend) :
    ({ s with
        store := s.store.create.2
        buffers := s.buffers ++ [⟨b, ⟨s.store.create.1, .empty⟩⟩] } : Session).WellFormed
    where
  size := by simpa using h.size
  placed {j y} hy := by
    rcases getElem?_concat_eq_some.1 hy with hy | ⟨rfl, rfl⟩
    · exact h.placed hy
    · exact congrArg ArenaId.mk h.size
  laidOut {j y} hy := by
    rcases getElem?_concat_eq_some.1 hy with hy | ⟨rfl, rfl⟩
    · rw [Store.arena_create_of_lt (h.lt_size hy)]
      exact h.laidOut hy
    · have ha := s.store.arena_create_self
      simp only [AnyBuffer.arena, AnyBuffer.directory, ha]
      exact LaidOut.empty b
  held ht := (h.held ht).of_extends (extends_concat s _ _ _)

/-- an array inserted into a buffer, its handle made the view of its new place -/
theorem insert (h : s.WellFormed) (hx : s.buffers[i]? = some x) {name : String} {t t' : Tensor} {store : Store}
    {buf : Buffer x.backend} (hins : x.buffer.insert s.store name t = .ok (store, buf, t')) (k : Nat) :
    (⟨store, s.buffers.set i ⟨x.backend, buf⟩, s.handles.set k t'⟩ : Session).WellFormed ∧
      Extends ⟨store, s.buffers.set i ⟨x.backend, buf⟩, s.handles.set k t'⟩ s := by
  obtain ⟨header, xs, hfree, hheader, -, hcount, hcap, hr⟩ := Buffer.insert_eq_ok.1 hins
  cases hr
  have hext := AnyBuffer.extends_record hfree (Buffer.newItem x.backend (s.store.arena x.arena) t)
  have hup := h.update hx hext (Buffer.laidOut_extended (h.laidOut hx) hfree hheader hcount hcap)
  have hi := (List.getElem?_eq_some_iff.1 hx).1
  refine ⟨hup.replace ?_ k, extends_set hx hext _ _⟩
  exact held_handle hup (List.getElem?_set_self hi) (Directory.get?_put_self _ _ _) _

/-- numbers written through a handle -/
theorem write (h : s.WellFormed) {t t' : Tensor} (ht : t ∈ s.handles) {change : Rewrite} {store : Store}
    (hup : t.update s.store change.apply = .ok (store, t')) (k : Nat) :
    (⟨store, s.buffers, s.handles.set k t'⟩ : Session).WellFormed := by
  obtain ⟨shape, storage⟩ := t
  cases storage with
  | owned data =>
    simp only [Tensor.update, bind_eq_ok, pure_eq_ok, Prod.mk.injEq] at hup
    obtain ⟨xs, -, rfl, rfl⟩ := hup
    exact h.replace (held_owned s shape xs) k
  | view w =>
    simp only [Tensor.update, Window.update, Store.modify, Arena.writeFloats, bind_eq_ok, pure_eq_ok, Prod.mk.injEq,
      Window.read_eq_ok, Arena.write_eq_ok] at hup
    obtain ⟨_, ⟨xs, ⟨⟨-, hin⟩, hxs⟩, ys, hys, _, ⟨-, rfl⟩, rfl⟩, rfl, rfl⟩ := hup
    have hlen : ys.length = w.len := by
      rw [change.keeps hys, ← hxs]
      exact Arena.length_numbers hin
    obtain ⟨x, name, item, hx, hi, rfl⟩ := h.held ht w rfl
    have hcount : (ys.map Single.bits).length = item.count := by rw [List.length_map, hlen]
    have hput := (h.laidOut hx).put hi hcount
    exact (h.put hx hput).replace (h.held ht) k

end WellFormed

/-! ## Steps and runs -/

/-- an execution on the host changes one arena, in which the buffer is still laid out -/
theorem store_execute_cpu {d : Directory} {description : Description} {c : Cpu.Computation} {buf : Buffer .cpu}
    {store : Store}
    (hc : Cpu.compile d description = .ok c) (h : LaidOut .cpu buf.directory (store.arena buf.arena)) (n : Nat) :
    ∃ a, (Cpu.execute c buf store n).store = store.put buf.arena a ∧ LaidOut .cpu buf.directory a := by
  cases hv : c.layout.verify buf.directory with
  | error e =>
    refine ⟨_, ?_, h⟩
    rw [Cpu.execute, hv, Store.put_arena_self]
  | ok u =>
    obtain ⟨hexec, hlaid⟩ := Cpu.execute_eq (n := n) hc hv h
    exact ⟨_, by rw [hexec], hlaid⟩

variable [LawfulDevice δ]

/-- an execution on a device changes one arena, in which the buffer is still laid out -/
theorem store_execute_gpu (e : Gpu.Executor δ) (c : Gpu.Computation) {buf : Buffer .gpu} {store : Store}
    (h : LaidOut .gpu buf.directory (store.arena buf.arena)) (n : Nat) :
    ∃ a, (e.execute c buf store n).store = store.put buf.arena a ∧ LaidOut .gpu buf.directory a := by
  have hsame : ∃ a, store = store.put buf.arena a ∧ LaidOut .gpu buf.directory a :=
    ⟨_, (store.put_arena_self buf.arena).symm, h⟩
  unfold Gpu.Executor.execute
  split
  · exact hsame
  · simp only
    split
    · next bytes hr =>
      have hlen := Gpu.Computation.length_runOn hr
      rw [Buffer.bytes, Arena.length_bytes] at hlen
      exact ⟨_, rfl, h.of_size (Arena.size_ofBytes hlen)⟩
    · exact hsame

theorem bind_eq_some {α β : Type} {x : Option α} {f : α → Option β} {b : β} :
    (x >>= f) = some b ↔ ∃ a, x = some a ∧ f a = some b := Option.bind_eq_some_iff

/-- **One step.** An operation that succeeds keeps the invariant and every entry. -/
theorem wellFormed_next {s s' : Session} (h : s.WellFormed) {a : Action δ} (hn : s.next a = some s') :
    s'.WellFormed ∧ s'.Extends s := by
  cases a with
  | create b =>
    cases hn
    exact ⟨h.create b, extends_concat s _ _ _⟩
  | own shape data =>
    simp only [next, bind_eq_some, toOption_eq_some, Option.pure_def, Option.some.injEq] at hn
    obtain ⟨t, ht, rfl⟩ := hn
    obtain ⟨_, -, ht⟩ := bind_eq_ok.1 ht
    obtain ⟨-, rfl⟩ := ite_pure_eq_ok.1 ht
    exact ⟨h.hold (held_owned s shape data), .refl s⟩
  | copy handle =>
    simp only [next, bind_eq_some, toOption_eq_some, Option.pure_def, Option.some.injEq] at hn
    obtain ⟨t, -, u, hu, rfl⟩ := hn
    simp only [Tensor.copy, bind_eq_ok, pure_eq_ok] at hu
    obtain ⟨xs, -, rfl⟩ := hu
    exact ⟨h.hold (held_owned s t.shape xs), .refl s⟩
  | insert buffer name handle =>
    simp only [next, bind_eq_some, toOption_eq_some, Option.pure_def, Option.some.injEq] at hn
    obtain ⟨x, hx, t, -, ⟨store, buf, t'⟩, hins, rfl⟩ := hn
    exact h.insert hx hins handle
  | view buffer name kind =>
    simp only [next, bind_eq_some, toOption_eq_some, Option.pure_def, Option.some.injEq] at hn
    obtain ⟨x, hx, t, hv, rfl⟩ := hn
    obtain ⟨item, shape, hi, -, -, rfl⟩ := (Buffer.view_eq_ok (h.laidOut hx)).1 hv
    exact ⟨h.hold (held_handle h hx hi shape), .refl s⟩
  | write handle change =>
    simp only [next, bind_eq_some, toOption_eq_some, Option.pure_def, Option.some.injEq] at hn
    obtain ⟨t, ht, ⟨store, t'⟩, hup, rfl⟩ := hn
    exact ⟨h.write (List.mem_of_getElem? ht) hup handle, .refl s⟩
  | append buffer count =>
    simp only [next, bind_eq_some, toOption_eq_some, Option.pure_def, Option.some.injEq, Arena.append_eq_ok] at hn
    obtain ⟨x, hx, _, ⟨hcap, rfl⟩, rfl⟩ := hn
    have hgrown : LaidOut x.backend x.directory ((s.store.arena x.arena).grow count) :=
      (h.laidOut hx).grow (by rw [Arena.size_grow]; exact hcap) (by simp) (Arena.agreeOn_grow _ count)
    exact ⟨h.put hx hgrown, .refl s⟩
  | load buffer bytes =>
    simp only [next, bind_eq_some] at hn
    obtain ⟨⟨b, buf⟩, hx, hn⟩ := hn
    cases b with
    | cpu => cases hn
    | gpu =>
      simp only [bind_eq_some, toOption_eq_some, Option.pure_def, Option.some.injEq, Buffer.loadBytes] at hn
      obtain ⟨store, hload, rfl⟩ := hn
      split_ifs at hload with hlen
      cases hload
      exact ⟨h.put hx ((h.laidOut hx).of_size (Arena.size_ofBytes hlen.symm)), .refl s⟩
  | runCpu buffer d description n =>
    simp only [next, bind_eq_some] at hn
    obtain ⟨⟨b, buf⟩, hx, hn⟩ := hn
    cases b with
    | cpu =>
      simp only [bind_eq_some, toOption_eq_some, Option.pure_def, Option.some.injEq] at hn
      obtain ⟨c, hc, rfl⟩ := hn
      obtain ⟨a, hstore, ha⟩ := store_execute_cpu hc (h.laidOut hx) n
      rw [hstore]
      exact ⟨h.put hx ha, .refl s⟩
    | gpu => cases hn
  | runGpu buffer e c n =>
    simp only [next, bind_eq_some] at hn
    obtain ⟨⟨b, buf⟩, hx, hn⟩ := hn
    cases b with
    | cpu => cases hn
    | gpu =>
      cases hn
      obtain ⟨a, hstore, ha⟩ := store_execute_gpu e c (h.laidOut hx) n
      rw [hstore]
      exact ⟨h.put hx ha, .refl s⟩

theorem wellFormed_step {s : Session} (h : s.WellFormed) (a : Action δ) :
    (s.step a).WellFormed ∧ (s.step a).Extends s := by
  unfold step
  cases hn : s.next a with
  | none => exact ⟨h, .refl s⟩
  | some s' => exact wellFormed_next h hn

/-- **Runs.** Every run keeps the invariant, and every buffer its place and its entries. -/
theorem wellFormed_run {s : Session} (h : s.WellFormed) (actions : List (Action δ)) :
    (s.run actions).WellFormed ∧ (s.run actions).Extends s := by
  induction actions generalizing s with
  | nil => exact ⟨h, .refl s⟩
  | cons a actions ih =>
    obtain ⟨h1, h2⟩ := wellFormed_step h a
    obtain ⟨h3, h4⟩ := ih h1
    exact ⟨h3, h2.trans h4⟩

end Session

/-! ## Regions -/

namespace Backend

/-- how much an arena holds, in the unit of offsets -/
def capacity : Backend → Arena → Nat
  | cpu, a => a.byteSize
  | gpu, a => a.size

/-- how much an item takes, in the unit of offsets: on the CPU the bytes of header and elements -/
def extent : Backend → Item → Nat
  | cpu, item => Size.wordBytes * (item.kind.rank + item.count)
  | gpu, item => item.count

/-- a recorded item takes its words, from its offset on -/
theorem offset_extent {b : Backend} {a : Arena} {item : Item} (h : item.Stored b a) :
    item.offset = item.headWord b * b.unitsPerWord ∧ item.offset + b.extent item = item.endWord b * b.unitsPerWord := by
  have hal := h.aligned
  have hbody := item.bodyWord_eq b
  cases b <;>
    simp only [Item.endWord, Item.headWord, wordAt, headerSize, unitsPerWord, extent, Size.wordBytes] at * <;> omega

theorem capacity_eq (b : Backend) (a : Arena) : b.capacity a = a.size * b.unitsPerWord := by
  cases b with
  | cpu => exact Nat.mul_comm _ _
  | gpu => exact (Nat.mul_one _).symm

end Backend

/-- the header of a recorded item decodes to its shape -/
theorem Buffer.decodeShape_eq {buf : Buffer .cpu} {s : Store} {item : Item}
    (h : item.Stored .cpu (s.arena buf.arena)) : buf.decodeShape s item.kind item.offset = .ok item.shape := by
  simp only [decodeShape, h.checkHeader, h.headed rfl]
  rfl

namespace Session

variable {δ : Type} [Device δ] [LawfulDevice δ]

/-- **Layout.** Whatever was done before: the region of every item, `extent` units from its offset on, lies inside the
arena; the regions of two names are apart; on the CPU, offsets are whole words and the headers decode to the recorded
shapes; and whatever is done afterwards, the buffer keeps its place and every entry. -/
theorem layout_run (actions : List (Action δ)) {i : Nat} {x : AnyBuffer}
    (hx : (run .empty actions).buffers[i]? = some x) :
    (∀ name item, x.directory.get? name = some item →
      item.elementCount = .ok item.count ∧ item.offset % x.backend.unitsPerWord = 0 ∧
        item.offset + x.backend.extent item ≤ x.backend.capacity ((run .empty actions).store.arena x.arena)) ∧
    (∀ name name' item item', name ≠ name' → x.directory.get? name = some item → x.directory.get? name' = some item' →
      item.offset + x.backend.extent item ≤ item'.offset ∨ item'.offset + x.backend.extent item' ≤ item.offset) ∧
    (∀ buf : Buffer .cpu, x = ⟨.cpu, buf⟩ → ∀ name item, buf.directory.get? name = some item →
      buf.decodeShape (run .empty actions).store item.kind item.offset = .ok item.shape) ∧
    ∀ later : List (Action δ), ∃ x', ((run .empty actions).run later).buffers[i]? = some x' ∧ x'.Extends x := by
  have hwf := (wellFormed_run wellFormed_empty actions).1
  have hlaid := hwf.laidOut hx
  refine ⟨?_, ?_, ?_, fun later => (wellFormed_run hwf later).2 i x hx⟩
  · intro name item hi
    have hs := hlaid.stored hi
    refine ⟨hs.counted, hs.aligned, ?_⟩
    rw [(Backend.offset_extent hs).2, Backend.capacity_eq]
    exact Nat.mul_le_mul_right _ hs.inside
  · intro name name' item item' hne hi hi'
    have hs := Backend.offset_extent (hlaid.stored hi)
    have hs' := Backend.offset_extent (hlaid.stored hi')
    rw [hs.2, hs'.2, hs.1, hs'.1]
    rcases hlaid.apart hne hi hi' with h | h
    · exact .inl (Nat.mul_le_mul_right _ h)
    · exact .inr (Nat.mul_le_mul_right _ h)
  · intro buf hbuf name item hi
    subst hbuf
    exact Buffer.decodeShape_eq (hlaid.stored hi)

/-- a run with both backends, an insertion that fails, an append, a write through a view and an execution -/
def sample : List (Action HostDevice) :=
  [.create .cpu, .create .gpu, .own (.vector 2) [⟨0x3f800000⟩, ⟨0x40000000⟩], .insert 0 "v" 0,
    .own (.matrix 1 2) [.zero, .zero], .append 0 3, .insert 0 "v" 1, .insert 0 "m" 1,
    .write 0 ⟨fun xs => .ok xs.reverse, fun h => by cases h; exact List.length_reverse⟩, .insert 1 "w" 0,
    .runCpu 0 ⟨(∅ : NameMap Item).put "v" ⟨.vector, 0, [2]⟩⟩ ⟨["v = add v v"]⟩ 2]

theorem layout_sample : ∃ x, (run .empty sample).buffers[0]? = some x ∧
    x.directory.get? "v" = some ⟨.vector, 0, [2]⟩ ∧ x.directory.get? "m" = some ⟨.matrix, 24, [1, 2]⟩ ∧
    0 + x.backend.extent ⟨.vector, 0, [2]⟩ ≤ 24 := by
  have hsome : ((run .empty sample).buffers[0]?.map fun x => (x.directory.get? "v", x.directory.get? "m")) =
      some (some ⟨.vector, 0, [2]⟩, some ⟨.matrix, 24, [1, 2]⟩) := by decide +kernel
  obtain ⟨x, hx, hget⟩ := Option.map_eq_some_iff.1 hsome
  obtain ⟨hv, hm⟩ := Prod.mk.inj hget
  obtain ⟨-, hapart, -⟩ := layout_run sample hx
  refine ⟨x, hx, hv, hm, ?_⟩
  rcases hapart "v" "m" _ _ (by decide) hv hm with h | h
  · exact h
  · exact absurd h (by simp)

end Session

end ArrayEngine
