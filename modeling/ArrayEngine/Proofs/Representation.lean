/-
Every array has as many elements as its extents multiply to, whatever a program does with it.

A `Work` is an operation of a program on the arrays that it has in hand: one that makes an array (`Making`), one that
binds, inserts or writes an array in place, or anything that happens to arenas and buffers. An operation that fails
leaves what it has changed so far (`Session.after`), so a run may hold operations that fail anywhere.
- `made_after` is the step and `made_afterAll` the run: the arrays in hand are made in one of the ways there are, and
  those are sound (`Tensor.Made.sound`). For an insertion this holds after each of its changes (`keeps_perform`);
- `ofData_eq_ok`, `ofRows_eq_ok`: which numbers and which rows make an array, and `row_ofRows`: the rows are read back;
- `ofData_eq_fault`: where the size of an array overflows on the way, as in `ofData_overflow`, the numbers are not even
  counted;
- `arrays_represented` puts this together.
-/
import ArrayEngine.Proofs.DeviceMemory
import ArrayEngine.Proofs.Handles

namespace ArrayEngine

/-! ## Which numbers make an array -/

namespace Tensor

theorem ofData_eq_ok {shape : Shape} {data : List Single} {t : Tensor} : ofData shape data = .ok t ↔
    (Size.Multipliable shape.extents ∧ data.length = shape.extents.prod) ∧ ⟨shape, .owned data⟩ = t := by
  simp only [ofData, ArrayEngine.bind_eq_ok, lift_layout_eq_ok, ite_pure_eq_ok, Shape.elementCount,
    Size.product_eq_ok_iff]
  refine ⟨?_, ?_⟩
  · intro hok
    obtain ⟨_, ⟨hpartial, rfl⟩, hlen, rfl⟩ := hok
    exact ⟨⟨hpartial, hlen⟩, rfl⟩
  · intro hspec
    obtain ⟨⟨hpartial, hlen⟩, rfl⟩ := hspec
    exact ⟨_, ⟨hpartial, rfl⟩, hlen, rfl⟩

/-- numbers are neither taken nor refused where there is no product of the extents -/
theorem ofData_eq_fault {shape : Shape} {data : List Single} {f : Fault} :
    ofData shape data = .error (.fault f) ↔ Size.product shape.extents = .error f := by
  cases hcount : Size.product shape.extents with
  | ok count =>
    have hdecided : ofData shape data = if data.length = count then .ok ⟨shape, .owned data⟩
        else .error (.rejected (.dataLength data.length shape.extents)) := by
      rw [ofData, Shape.elementCount, hcount]
      rfl
    rw [hdecided]
    split_ifs <;> simp
  | error f' =>
    have hfault : ofData shape data = .error (.fault f') := by
      rw [ofData, Shape.elementCount, hcount]
      rfl
    simp [hfault]

/-- Three extents have product zero, but the first two of them have a product that is no size: no numbers are as many as
the product says, and still they make no array. -/
theorem ofData_overflow : ¬∀ (shape : Shape) (data : List Single),
    (∃ t, ofData shape data = .ok t) ↔ data.length = shape.extents.prod := by
  intro h
  obtain ⟨t, ht⟩ := (h (.array3 0x100000000 0x100000000 0) []).2 rfl
  obtain ⟨⟨hfits, -⟩, -⟩ := ofData_eq_ok.1 ht
  exact absurd (hfits [0x100000000, 0x100000000] ⟨[0], rfl⟩) (by decide)

/-! ## Which rows make a matrix -/

/-- the number of columns of a list of rows: as many as the first row has elements -/
def columns (rows : List (List Single)) : Nat := (rows.headD []).length

/-- whether rows of one length can be laid out one after the other in one allocation -/
def RowsFit (rows : List (List Single)) : Prop :=
  rows.length < Size.bound ∧ Size.wordBytes * (rows.length * columns rows) < Size.allocationBound

variable {rows : List (List Single)} {n : Nat}

theorem RowsFit.lt_bound (h : RowsFit rows) : rows.length * columns rows < Size.bound :=
  (Nat.le_mul_of_pos_left _ (by decide)).trans_lt (Size.lt_bound_of_allocatable h.2)

theorem checkRows_eq_ok {cols i : Nat} {u : Unit} :
    checkRows cols i rows = .ok u ↔ ∀ row ∈ rows, row.length = cols := by
  induction rows generalizing i with
  | nil => simp [checkRows]
  | cons row rows ih =>
    rw [checkRows, List.forall_mem_cons]
    split_ifs with h
    · rw [ih, and_iff_right h]
    · simp [h]

/-- rows are of one length if all of them are as long as the first one -/
theorem columns_eq_iff : (∃ n, ∀ row ∈ rows, row.length = n) ↔ ∀ row ∈ rows, row.length = columns rows := by
  refine ⟨?_, fun h => ⟨_, h⟩⟩
  intro h
  obtain ⟨n, hn⟩ := h
  cases rows with
  | nil => simp
  | cons row rows =>
    have hfirst : columns (row :: rows) = n := hn row List.mem_cons_self
    rwa [hfirst]

theorem length_flatten_rows (h : ∀ row ∈ rows, row.length = n) : rows.flatten.length = rows.length * n := by
  induction rows with
  | nil => simp
  | cons row rows ih =>
    rw [List.forall_mem_cons] at h
    rw [List.flatten_cons, List.length_append, h.1, ih h.2, List.length_cons, Nat.succ_mul, Nat.add_comm]

/-- rows of one length are the runs of their elements -/
theorem rowsOf_flatten (h : ∀ row ∈ rows, row.length = n) : Kernel.rowsOf n rows.length rows.flatten = rows := by
  induction rows with
  | nil => rfl
  | cons row rows ih =>
    rw [List.forall_mem_cons] at h
    rw [List.length_cons, List.flatten_cons, Kernel.rowsOf, ← h.1, List.take_left, List.drop_left, h.1, ih h.2]

theorem multipliable_matrix {m : Nat} (hm : m < Size.bound) (hmn : m * n < Size.bound) :
    Size.Multipliable (Shape.matrix m n).extents := by
  intro front hfront
  simp only [Shape.extents, List.prefix_cons_iff, List.prefix_nil] at hfront
  rcases hfront with rfl | ⟨_, rfl, rfl | ⟨_, rfl, rfl⟩⟩
  · exact (by decide : 1 < Size.bound)
  · simpa using hm
  · simpa using hmn

/-- rows make a matrix if they fit and all of them are of one length -/
theorem ofRows_eq_ok {t : Tensor} : ofRows rows = .ok t ↔
    (RowsFit rows ∧ ∀ row ∈ rows, row.length = columns rows) ∧
      ⟨.matrix rows.length (columns rows), .owned rows.flatten⟩ = t := by
  simp only [ofRows, ArrayEngine.bind_eq_ok, lift_layout_eq_ok, Size.mul_eq_ok, Size.allocatable_eq_ok,
    checkRows_eq_ok, ofData_eq_ok]
  refine ⟨?_, ?_⟩
  · intro hok
    obtain ⟨_, ⟨-, rfl⟩, _, hroom, _, hrows, ⟨hpartial, -⟩, rfl⟩ := hok
    have hcount : rows.length < Size.bound := by simpa using hpartial [rows.length] ⟨[columns rows], rfl⟩
    exact ⟨⟨⟨hcount, hroom⟩, hrows⟩, rfl⟩
  · intro hspec
    obtain ⟨⟨hfit, hrows⟩, rfl⟩ := hspec
    have hsize := hfit.lt_bound
    refine ⟨_, ⟨hsize, rfl⟩, (), hfit.2, (), hrows, ⟨multipliable_matrix hfit.1 hsize, ?_⟩, rfl⟩
    rw [length_flatten_rows hrows]
    simp [Shape.extents, columns]

/-- the rows of a matrix are those it was made of -/
theorem row_ofRows {t : Tensor} (h : ofRows rows = .ok t) (s : Store) {i : Nat} (hi : i < rows.length) :
    t.row s i = .ok rows[i] := by
  obtain ⟨⟨hfit, hrows⟩, rfl⟩ := ofRows_eq_ok.1 h
  have hlen := length_flatten_rows hrows
  have hstop : (i + 1) * columns rows ≤ rows.length * columns rows := Nat.mul_le_mul_right _ hi
  have hstart : i * columns rows ≤ (i + 1) * columns rows := Nat.mul_le_mul_right _ (Nat.le_succ i)
  have hsize := hfit.lt_bound
  have hcount := hfit.1
  have hrow : (rows.flatten.drop (i * columns rows)).take (columns rows) = rows[i] := by
    have hget := Kernel.getElem?_rowsOf (columns rows) rows.length rows.flatten hi
    rw [rowsOf_flatten hrows, List.getElem?_eq_getElem hi] at hget
    exact (Option.some.inj hget).symm
  have hlast : (i + 1) * columns rows - i * columns rows = columns rows := by
    rw [Nat.succ_mul]
    omega
  simp only [row, data, Shape.rowLength, ok_bind, ArrayEngine.bind_eq_ok, Size.mul_eq_ok, Size.add_eq_ok,
    ite_pure_eq_ok]
  refine ⟨_, ⟨by omega, rfl⟩, _, ⟨by omega, rfl⟩, _, ⟨by omega, rfl⟩, by omega, ?_⟩
  rw [List.drop_take, hlast, hrow]

end Tensor

/-! ## Insertions that may fail anywhere -/

/-- an operation after which, however it ends, a property holds that held before -/
def Keeps {ε σ α : Type} (P : σ → Prop) (x : EStateM ε σ α) : Prop := ∀ s, P s → P (stateAfter (x s))

theorem Keeps.bind {ε σ α β : Type} {P : σ → Prop} {x : EStateM ε σ α} {f : α → EStateM ε σ β} (hx : Keeps P x)
    (hf : ∀ a, Keeps P (f a)) : Keeps P (x >>= f) := by
  intro s hs
  have hafter := hx s hs
  cases hr : x s with
  | ok a s' =>
    rw [hr] at hafter
    rw [bind_of_ok hr]
    exact hf a s' hafter
  | error e s' =>
    rw [hr] at hafter
    rw [bind_of_error hr]
    exact hafter

theorem keeps_attempt {σ : Type} {P : σ → Prop} {f : σ → Except Failure σ} (h : ∀ s s', P s → f s = .ok s' → P s') :
    Keeps P (Run.attempt f) := by
  intro s hs
  unfold Run.attempt
  cases hr : f s with
  | ok s' => exact h s s' hs hr
  | error e => exact hs

namespace Insertion

variable {b : Backend} {P : Insertion b → Prop}

theorem keeps_ask {α : Type} (f : Insertion b → Except Failure α) : Keeps P (ask f) := by
  intro i hi
  unfold ask
  cases f i <;> exact hi

/-- the array of an insertion is only changed where it is bound to its new place -/
theorem keeps_settle (name : String) (header : List UInt32) (elements : List Single) (start : Nat) :
    Keeps (fun i : Insertion b => i.array.Made) (settle name header elements start) := by
  refine .bind (keeps_attempt ?_) fun _ => .bind (keeps_attempt ?_) fun _ => .bind (keeps_ask _) fun offset =>
    .bind (keeps_attempt ?_) fun _ => keeps_attempt ?_
  · intro i i' hi hok
    simp only [bind_eq_ok, pure_eq_ok] at hok
    obtain ⟨_, -, rfl⟩ := hok
    exact hi
  · intro i i' hi hok
    simp only [bind_eq_ok, pure_eq_ok] at hok
    obtain ⟨_, -, rfl⟩ := hok
    exact hi
  · intro i i' hi hok
    simp only [bind_eq_ok, pure_eq_ok] at hok
    obtain ⟨_, hbind, rfl⟩ := hok
    exact .bound hi hbind
  · intro i i' hi hok
    simp only [bind_eq_ok, pure_eq_ok] at hok
    obtain ⟨_, -, rfl⟩ := hok
    exact hi

/-- **Insertions.** After an insertion, wherever it ended, its array is one that can be made. -/
theorem keeps_perform (name : String) : Keeps (fun i : Insertion b => i.array.Made) (perform name) := by
  refine .bind (keeps_ask _) fun _ => .bind (keeps_ask _) fun header => .bind (keeps_ask _) fun elements =>
    .bind (keeps_ask _) fun grown => .bind ?_ fun _ => keeps_settle name header elements _
  exact fun i hi => hi

end Insertion

/-! ## Runs of operations on arrays -/

/-- an operation that makes an array. The arrays it works on are named by their position -/
inductive Making where
  | vector (xs : List Single) (h : xs.length < Size.bound)
  | data (shape : Shape) (xs : List Single)
  | rows (rs : List (List Single))
  | zeros (shape : Shape)
  | sampled (f : Sampling.Elementary) (std : Single) (words : Nat → UInt32) (pos : Nat) (shape : Shape)
  | window (kind : Kind) (extents : List Nat) (w : Window)
  | copy (k : Nat)
  | times (k : Nat) (factor : Single)
  | plus (j k : Nat)
  | product (j k : Nat)

namespace Making

/-- the array that is made, if none of the arrays it is made of is missing and the operation succeeds -/
def array? (arrays : List Tensor) (s : Store) (m : Making) : Option Tensor :=
  match m with
  | .vector xs _ => some (.vector xs)
  | .data shape xs => (Tensor.ofData shape xs).toOption
  | .rows rs => (Tensor.ofRows rs).toOption
  | .zeros shape => (Tensor.zeros shape).toOption
  | .sampled f std words pos shape => (Sampling.tensor f std words shape pos).toOption.map Prod.fst
  | .window kind extents w => (Tensor.ofView kind extents w).toOption
  | .copy k => do ((← arrays[k]?).copy s).toOption
  | .times k factor => do ((← arrays[k]?).times s factor).toOption
  | .plus j k => do ((← arrays[j]?).plus (← arrays[k]?) s).toOption
  | .product j k => do ((← arrays[j]?).product (← arrays[k]?) s).toOption

open Session (bind_eq_some)

theorem made {arrays : List Tensor} (h : ∀ t ∈ arrays, t.Made) {s : Store} {m : Making} {t : Tensor}
    (hm : m.array? arrays s = some t) : t.Made := by
  have hget {k : Nat} {u : Tensor} (hu : arrays[k]? = some u) : u.Made := h u (List.mem_of_getElem? hu)
  cases m with
  | vector xs hlen =>
    cases hm
    exact .vector hlen
  | data shape xs => exact .data (toOption_eq_some.1 hm)
  | rows rs => exact .rows (toOption_eq_some.1 hm)
  | zeros shape => exact .zeros (toOption_eq_some.1 hm)
  | sampled f std words pos shape =>
    obtain ⟨r, hr, rfl⟩ := Option.map_eq_some_iff.1 hm
    exact .sampled (toOption_eq_some.1 hr)
  | window kind extents w => exact .viewed (toOption_eq_some.1 hm)
  | copy k =>
    obtain ⟨u, hu, hm⟩ := bind_eq_some.1 hm
    exact .copied (hget hu) (toOption_eq_some.1 hm)
  | times k factor =>
    obtain ⟨u, hu, hm⟩ := bind_eq_some.1 hm
    exact .times (hget hu) (toOption_eq_some.1 hm)
  | plus j k =>
    obtain ⟨u, hu, hm⟩ := bind_eq_some.1 hm
    obtain ⟨v, hv, hm⟩ := bind_eq_some.1 hm
    exact .plus (hget hu) (hget hv) (toOption_eq_some.1 hm)
  | product j k =>
    obtain ⟨u, hu, hm⟩ := bind_eq_some.1 hm
    obtain ⟨v, hv, hm⟩ := bind_eq_some.1 hm
    exact .product (hget hu) (hget hv) (toOption_eq_some.1 hm)

end Making

/-- an operation of a program on the arrays in hand. What happens to the arenas and the buffers otherwise, where buffers
are created, extended, loaded or executed on, leaves any there may be -/
inductive Work where
  | make (m : Making)
  | bind (k : Nat) (w : Window)
  | insert (buffer : Nat) (name : String) (k : Nat)
  | write (k : Nat) (change : Rewrite)
  | elsewhere (store : Store) (buffers : List AnyBuffer)

namespace Session

/-- the session after an operation, which may have failed: what it had changed until then stays changed -/
def after (s : Session) (w : Work) : Session :=
  match w with
  | .make m => { s with handles := s.handles ++ (m.array? s.handles s.store).toList }
  | .bind k w =>
    match s.handles[k]? with
    | some t => { s with handles := s.handles.set k (stateAfter (Tensor.rebind w t)) }
    | none => s
  | .insert buffer name k =>
    match s.buffers[buffer]?, s.handles[k]? with
    | some x, some t =>
      let i := stateAfter (Insertion.perform name ⟨s.store, x.buffer, t⟩)
      ⟨i.store, s.buffers.set buffer ⟨x.backend, i.buffer⟩, s.handles.set k i.array⟩
    | _, _ => s
  | .write k change =>
    match s.handles[k]? with
    | some t =>
      match t.update s.store change.apply with
      | .ok (store, t) => ⟨store, s.buffers, s.handles.set k t⟩
      | .error _ => s
    | none => s
  | .elsewhere store buffers => ⟨store, buffers, s.handles⟩

def afterAll (s : Session) (works : List Work) : Session := works.foldl after s

variable {s : Session}

/-- **One step.** After an operation, failing or not, the arrays in hand are made in one of the ways that there are. -/
theorem made_after (h : ∀ t ∈ s.handles, t.Made) (w : Work) : ∀ t ∈ (s.after w).handles, t.Made := by
  have hget {k : Nat} {t : Tensor} (ht : s.handles[k]? = some t) : t.Made := h t (List.mem_of_getElem? ht)
  cases w with
  | make m =>
    refine List.forall_mem_append.2 ⟨h, ?_⟩
    intro t ht
    exact Making.made h (Option.mem_toList.1 ht)
  | bind k w =>
    simp only [after]
    split
    · next t ht =>
      refine forall_mem_set h k ?_
      rw [(hget ht).sound.rebind_eq w]
      split_ifs with hlen
      · exact .bound (hget ht) (Tensor.bind_view_eq_ok.2 ⟨hlen ▸ (hget ht).sound, rfl⟩)
      · exact hget ht
    · exact h
  | insert buffer name k =>
    simp only [after]
    split
    · next x t hx ht => exact forall_mem_set h k (Insertion.keeps_perform name _ (hget ht))
    · exact h
  | write k change =>
    simp only [after]
    split
    · next t ht =>
      split
      · next store t' hup => exact forall_mem_set h k (.changed (hget ht) change hup)
      · exact h
    · exact h
  | elsewhere store buffers => exact h

/-- **Runs.** So they are after any number of operations. -/
theorem made_afterAll (h : ∀ t ∈ s.handles, t.Made) (works : List Work) : ∀ t ∈ (s.afterAll works).handles, t.Made := by
  induction works generalizing s with
  | nil => exact h
  | cons w works ih => exact ih (made_after h w)

/-- **Arrays are what their extents say.** After any operations, failing or not, an array in hand has as many elements
as its extents multiply to, this many are read, and it takes the windows of this many: at any other one it is left as it
was. Rows make a matrix if and only if they fit and are of one length, and are read back as they were. Numbers make an
array if and only if there are as many as the extents multiply to, except where a product of first extents overflows;
there, and only there, making the array faults. -/
theorem arrays_represented (works : List Work) :
    (∀ t ∈ (empty.afterAll works).handles,
      t.stored = t.extents.prod ∧ t.elementCount = .ok t.stored ∧
      (∀ s xs, t.data s = .ok xs → xs.length = t.stored) ∧
      ∀ w, Tensor.rebind w t = if w.len = t.stored then .ok () { t with storage := .view w }
        else .error (.refused (.shapeMismatch "bind" (.window w.len t.extents))) t) ∧
    (∀ rows : List (List Single),
      ((∃ t, Tensor.ofRows rows = .ok t) ↔ Tensor.RowsFit rows ∧ ∃ n, ∀ row ∈ rows, row.length = n) ∧
      ∀ t, Tensor.ofRows rows = .ok t →
        t.extents = [rows.length, Tensor.columns rows] ∧ ∀ s i, (hi : i < rows.length) → t.row s i = .ok rows[i]) ∧
    ∀ (shape : Shape) (data : List Single),
      ((∃ t, Tensor.ofData shape data = .ok t) ↔
        Size.Multipliable shape.extents ∧ data.length = shape.extents.prod) ∧
      ((∃ f, Tensor.ofData shape data = .error (.fault f)) ↔ ¬Size.Multipliable shape.extents) := by
  refine ⟨?_, ?_, ?_⟩
  · intro t ht
    have hsound : t.Sound := (made_afterAll (s := empty) (by simp [empty]) works t ht).sound
    exact ⟨(Size.product_eq_ok_iff.1 hsound).2.symm, hsound, fun s xs => Tensor.length_data, hsound.rebind_eq⟩
  · intro rows
    refine ⟨?_, ?_⟩
    · rw [Tensor.columns_eq_iff]
      simp only [Tensor.ofRows_eq_ok, exists_and_left, exists_eq', and_true]
    · intro t ht
      refine ⟨?_, fun s i hi => Tensor.row_ofRows ht s hi⟩
      obtain ⟨-, rfl⟩ := Tensor.ofRows_eq_ok.1 ht
      rfl
  · intro shape data
    refine ⟨?_, ?_⟩
    · simp only [Tensor.ofData_eq_ok, exists_and_left, exists_eq', and_true]
    · simp only [Tensor.ofData_eq_fault, Size.exists_product_eq_error]

/-- a matrix is made and inserted, copied and doubled. In between, extents without a product, rows of two lengths, a
name that is taken and a window of another size are refused -/
def mixed : List Work :=
  [.elsewhere (Buffer.create .cpu .empty).2 [⟨.cpu, (Buffer.create .cpu .empty).1⟩],
    .make (.data (.matrix 2 2) [⟨0x3f800000⟩, ⟨0x40000000⟩, ⟨0x40400000⟩, ⟨0x40800000⟩]),
    .make (.data (.array3 0x100000000 0x100000000 0) []), .make (.rows [[⟨0x3f800000⟩, ⟨0x40000000⟩], [⟨0x40400000⟩]]),
    .insert 0 "m" 0, .insert 0 "m" 0, .bind 0 ⟨⟨0⟩, 0, 3⟩, .make (.copy 0), .make (.times 0 ⟨0x40000000⟩)]

/-- the matrix is left the view that it was inserted as -/
theorem arrays_represented_mixed :
    (empty.afterAll mixed).handles[0]? = some ⟨.matrix 2 2, .view ⟨⟨0⟩, 2, 4⟩⟩ ∧
    Tensor.rebind ⟨⟨0⟩, 0, 3⟩ ⟨.matrix 2 2, .view ⟨⟨0⟩, 2, 4⟩⟩ =
      .error (.refused (.shapeMismatch "bind" (.window 3 [2, 2]))) ⟨.matrix 2 2, .view ⟨⟨0⟩, 2, 4⟩⟩ := by
  have hview : (empty.afterAll mixed).handles[0]? = some ⟨.matrix 2 2, .view ⟨⟨0⟩, 2, 4⟩⟩ := by decide +kernel
  obtain ⟨-, -, -, hbind⟩ := (arrays_represented mixed).1 _ (List.mem_of_getElem? hview)
  exact ⟨hview, hbind ⟨⟨0⟩, 0, 3⟩⟩

end Session

end ArrayEngine
