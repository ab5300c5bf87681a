/-
Which arrays a program can have, and that each has as many elements as its shape says.

`Made` has one case for every way to come by an array: the constructors, samples, copies and results of arithmetic, and
views, made of a window or by binding an array that is there. `Sound` says that the stored elements, or those of the
window, are as many as the product of the extents.
- `Made.sound`: every array is sound, so binding it to a window of as many elements cannot fail;
- `made_next` and `made_run`: the arrays that a session has in hand are made in these ways.
-/
import ArrayEngine.Proofs.Contents
import ArrayEngine.Proofs.Samples

namespace ArrayEngine

theorem lift_layout_eq_ok {α : Type} {x : Except Fault α} {a : α} :
    (liftM x : Except LayoutFailure α) = .ok a ↔ x = .ok a := by
  cases x <;> simp [liftM, monadLift, MonadLift.monadLift, Except.mapError]

namespace Tensor

/-! ## Sound arrays -/

/-- the number of elements that are there: those of the array itself, or those of its window -/
def stored (t : Tensor) : Nat :=
  match t.storage with
  | .owned data => data.length
  | .view w => w.len

/-- an array with as many elements as its shape says -/
def Sound (t : Tensor) : Prop := t.elementCount = .ok t.stored

section

variable {s : Store} {t : Tensor}

/-- what is read is as much as is stored -/
theorem length_data {xs : List Single} (h : t.data s = .ok xs) : xs.length = t.stored := by
  obtain ⟨shape, storage⟩ := t
  cases storage with
  | owned data =>
    cases h
    rfl
  | view w =>
    obtain ⟨⟨-, hin⟩, rfl⟩ := Window.read_eq_ok.1 h
    exact Arena.length_numbers hin

theorem Sound.elementCount_data (h : t.Sound) {xs : List Single} (hxs : t.data s = .ok xs) :
    t.elementCount = .ok xs.length := by
  rw [length_data hxs]
  exact h

end

/-! ## All arrays -/

/-- the arrays that a program can come to have -/
inductive Made : Tensor → Prop
  | vector {data : List Single} (h : data.length < Size.bound) : Made (vector data)
  | data {shape : Shape} {data : List Single} {t : Tensor} (h : ofData shape data = .ok t) : Made t
  | rows {rows : List (List Single)} {t : Tensor} (h : ofRows rows = .ok t) : Made t
  | zeros {shape : Shape} {t : Tensor} (h : zeros shape = .ok t) : Made t
  | sampled {f : Sampling.Elementary} {std : Single} {words : Nat → UInt32} {shape : Shape} {pos : Nat}
      {r : Tensor × Nat} (h : Sampling.tensor f std words shape pos = .ok r) : Made r.1
  | copied {t u : Tensor} {s : Store} (ht : Made t) (h : t.copy s = .ok u) : Made u
  | times {t u : Tensor} {s : Store} {factor : Single} (ht : Made t) (h : t.times s factor = .ok u) : Made u
  | plus {t u v : Tensor} {s : Store} (ht : Made t) (hu : Made u) (h : t.plus u s = .ok v) : Made v
  | product {t u v : Tensor} {s : Store} (ht : Made t) (hu : Made u) (h : t.product u s = .ok v) : Made v
  | viewed {kind : Kind} {extents : List Nat} {w : Window} {t : Tensor} (h : ofView kind extents w = .ok t) : Made t
  | bound {t u : Tensor} {w : Window} (ht : Made t) (h : t.bind w = .ok u) : Made u
  | changed {t : Tensor} {s : Store} (ht : Made t) (change : Rewrite) {r : Store × Tensor}
      (h : t.update s change.apply = .ok r) : Made r.2

variable {s s' : Store} {t u v : Tensor}

theorem sound_ofData {shape : Shape} {data : List Single} (h : ofData shape data = .ok t) : t.Sound := by
  simp only [ofData, ArrayEngine.bind_eq_ok, lift_layout_eq_ok, ite_pure_eq_ok] at h
  obtain ⟨_, hn, rfl, rfl⟩ := h
  exact hn

/-- **Soundness.** Every array has as many elements as its shape says. -/
theorem Made.sound (h : t.Made) : t.Sound := by
  induction h with
  | vector h => exact elementCount_vector h _
  | data h => exact sound_ofData h
  | rows h =>
    simp only [ofRows, ArrayEngine.bind_eq_ok] at h
    obtain ⟨_, -, _, -, _, -, h⟩ := h
    exact sound_ofData h
  | zeros h =>
    simp only [Tensor.zeros, ArrayEngine.bind_eq_ok, pure_eq_ok] at h
    obtain ⟨n, hn, -, -, rfl⟩ := h
    change _ = Except.ok (List.replicate n Single.zero).length
    rw [List.length_replicate]
    exact hn
  | sampled h =>
    simp only [Sampling.tensor, ArrayEngine.bind_eq_ok, pure_eq_ok] at h
    obtain ⟨n, hn, ⟨xs, after⟩, hsample, rfl⟩ := h
    change _ = Except.ok xs.length
    rw [Sampling.length_sample hsample]
    exact hn
  | copied ht h ih =>
    simp only [copy, ArrayEngine.bind_eq_ok, pure_eq_ok] at h
    obtain ⟨xs, hxs, rfl⟩ := h
    exact ih.elementCount_data hxs
  | times ht h ih =>
    simp only [Tensor.times, ArrayEngine.bind_eq_ok, Kernel.scale_eq_ok, pure_eq_ok] at h
    obtain ⟨n, hn, xs, hxs, ys, ⟨hlen, rfl⟩, rfl⟩ := h
    refine elementCount_vector ?_ _
    rw [List.length_map, hlen]
    exact Size.lt_of_product hn
  | @plus t u v s ht hu h iht ihu =>
    unfold Tensor.plus at h
    split_ifs at h
    simp only [ArrayEngine.bind_eq_ok, Kernel.add_eq_ok, pure_eq_ok] at h
    obtain ⟨xs, hxs, ys, hys, zs, ⟨⟨hlen, -⟩, rfl⟩, rfl⟩ := h
    refine elementCount_vector ?_ _
    rw [List.length_zipWith, ← hlen, min_self]
    exact Size.lt_of_product (iht.elementCount_data hxs)
  | product ht hu h iht ihu =>
    simp only [Tensor.product, ArrayEngine.bind_eq_ok, Kernel.matvec_eq_ok, pure_eq_ok] at h
    obtain ⟨_, -, _, -, xs, -, _, hroom, ys, -, zs, ⟨-, rfl⟩, rfl⟩ := h
    refine elementCount_vector ?_ _
    rw [Kernel.length_products]
    have hbytes := Size.lt_bound_of_allocatable (Size.allocatable_eq_ok.1 hroom)
    simp only [Size.wordBytes] at hbytes
    omega
  | viewed h =>
    obtain ⟨shape, -, hn, rfl⟩ := ofView_eq_ok.1 h
    exact hn
  | bound ht h ih =>
    obtain ⟨hn, rfl⟩ := bind_view_eq_ok.1 h
    exact hn
  | @changed t s ht change r h ih =>
    obtain ⟨shape, storage⟩ := t
    cases storage with
    | owned data =>
      simp only [update, ArrayEngine.bind_eq_ok, pure_eq_ok] at h
      obtain ⟨ys, hys, rfl⟩ := h
      change _ = Except.ok ys.length
      rw [change.keeps hys]
      exact ih
    | view w =>
      simp only [update, ArrayEngine.bind_eq_ok, pure_eq_ok] at h
      obtain ⟨_, -, rfl⟩ := h
      exact ih

end Tensor

/-! ## Sessions -/

namespace Session

variable {δ : Type} [Device δ] {s s' : Session}

/-- an insertion turns an array into a view of as many elements -/
theorem made_insert {b : Backend} {buf buf' : Buffer b} {store store' : Store} {name : String} {t t' : Tensor}
    (ht : t.Made) (h : buf.insert store name t = .ok (store', buf', t')) : t'.Made := by
  obtain ⟨header, xs, -, -, -, hcount, -, hr⟩ := Buffer.insert_eq_ok.1 h
  cases hr
  refine .bound ht (Tensor.bind_view_eq_ok.2 ⟨?_, rfl⟩)
  rw [Buffer.count_newItem hcount]
  exact hcount

theorem forall_mem_set {P : Tensor → Prop} {ts : List Tensor} (h : ∀ t ∈ ts, P t) (k : Nat) {t : Tensor} (ht : P t) :
    ∀ u ∈ ts.set k t, P u := by
  intro u hu
  rcases List.mem_or_eq_of_mem_set hu with hu | rfl
  · exact h u hu
  · exact ht

/-- **One step.** The arrays in hand are made in one of the ways that there are. -/
theorem made_next {a : Action δ} (h : ∀ t ∈ s.handles, t.Made) (hn : s.next a = some s') :
    ∀ t ∈ s'.handles, t.Made := by
  have hconcat {t : Tensor} (ht : t.Made) : ∀ u ∈ s.handles ++ [t], u.Made :=
    List.forall_mem_append.2 ⟨h, List.forall_mem_singleton.2 ht⟩
  have hset {t : Tensor} (ht : t.Made) (k : Nat) : ∀ u ∈ s.handles.set k t, u.Made := forall_mem_set h k ht
  cases a with
  | create b =>
    cases hn
    exact h
  | own shape data =>
    simp only [next, bind_eq_some, toOption_eq_some, Option.pure_def, Option.some.injEq] at hn
    obtain ⟨t, ht, rfl⟩ := hn
    exact hconcat (.data ht)
  | copy handle =>
    simp only [next, bind_eq_some, toOption_eq_some, Option.pure_def, Option.some.injEq] at hn
    obtain ⟨t, ht, u, hu, rfl⟩ := hn
    exact hconcat (.copied (h t (List.mem_of_getElem? ht)) hu)
  | insert buffer name handle =>
    simp only [next, bind_eq_some, toOption_eq_some, Option.pure_def, Option.some.injEq] at hn
    obtain ⟨x, -, t, ht, ⟨store, buf, t'⟩, hins, rfl⟩ := hn
    exact hset (made_insert (h t (List.mem_of_getElem? ht)) hins) handle
  | view buffer name kind =>
    simp only [next, bind_eq_some, toOption_eq_some, Option.pure_def, Option.some.injEq] at hn
    obtain ⟨x, -, t, hv, rfl⟩ := hn
    simp only [Buffer.view, bind_eq_ok] at hv
    obtain ⟨_, -, _, -, _, -, hv⟩ := hv
    exact hconcat (.viewed hv)
  | write handle change =>
    simp only [next, bind_eq_some, toOption_eq_some, Option.pure_def, Option.some.injEq] at hn
    obtain ⟨t, ht, ⟨store, t'⟩, hup, rfl⟩ := hn
    exact hset (.changed (h t (List.mem_of_getElem? ht)) change hup) handle
  | append buffer count =>
    simp only [next, bind_eq_some, Option.pure_def, Option.some.injEq] at hn
    obtain ⟨x, -, _, -, rfl⟩ := hn
    exact h
  | load buffer bytes =>
    simp only [next, bind_eq_some] at hn
    obtain ⟨⟨b, buf⟩, -, hn⟩ := hn
    cases b with
    | cpu => cases hn
    | gpu =>
      simp only [bind_eq_some, Option.pure_def, Option.some.injEq] at hn
      obtain ⟨store, -, rfl⟩ := hn
      exact h
  | runCpu buffer d description n =>
    simp only [next, bind_eq_some] at hn
    obtain ⟨⟨b, buf⟩, -, hn⟩ := hn
    cases b with
    | cpu =>
      simp only [bind_eq_some, Option.pure_def, Option.some.injEq] at hn
      obtain ⟨c, -, rfl⟩ := hn
      exact h
    | gpu => cases hn
  | runGpu buffer e c n =>
    simp only [next, bind_eq_some] at hn
    obtain ⟨⟨b, buf⟩, -, hn⟩ := hn
    cases b with
    | cpu => cases hn
    | gpu =>
      cases hn
      exact h

/-- **Runs.** So it is after every run. -/
theorem made_run (h : ∀ t ∈ s.handles, t.Made) (actions : List (Action δ)) :
    ∀ t ∈ (s.run actions).handles, t.Made := by
  induction actions generalizing s with
  | nil => exact h
  | cons a actions ih =>
    apply ih
    unfold step
    cases hn : s.next a with
    | none => exact h
    | some s' => exact made_next h hn

end Session

end ArrayEngine
