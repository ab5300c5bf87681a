/-
Grouping snippets does not change what they do.

A lowered operation is a call on the element offsets of its items (`Operation.call`). On a buffer that is laid out the
calls stay inside the arena, and all ranges that grouping looks at are sizes, so grouping never faults (`groups_eq_ok`):
it cuts the snippets into consecutive groups of one work size in which no call gathers what another one writes.
- `not_reads_of_ne`: then an invocation reads nothing that another invocation of the group writes at another index.
  Sources and destinations are the same item or apart, and a matrix is never a destination;
- `run_group`: so a dispatch of a group, with its surplus invocations, does what its snippets do one after the other;
- `groups_preserve`: and the dispatches of all groups do what all snippets do in order.
-/
import ArrayEngine.Proofs.Contents
import ArrayEngine.Proofs.Grouping
import ArrayEngine.Proofs.Invocation

namespace ArrayEngine

open Shader (Call Snippet Group)

/-! ## Lowering -/

namespace Operation

/-- the call of an operation on the elements of its items -/
def call : Operation → Call
  | scale dest src factor => .scale dest.offset src.offset src.item.count factor
  | product dest matrix vector => .product dest.offset matrix.offset vector.offset matrix.item.rows matrix.item.cols
  | add dest lhs rhs => .add dest.offset lhs.offset rhs.offset lhs.item.count

variable {d : Directory} {a : Arena} {op : Operation}

theorem ofOperation_eq (hop : op.Typed d) : Call.ofOperation op = .ok op.call := by
  obtain ⟨_, hop⟩ := hop
  cases hop with
  | scale _ _ _ _ hsn => simp only [Call.ofOperation, hsn.2, call, hsn.count]; rfl
  | product => rfl
  | add _ _ _ _ hln _ => simp only [Call.ofOperation, hln.2, call, hln.count]; rfl

theorem workSize_eq (hop : op.Typed d) : op.workSize = .ok op.call.size := by
  obtain ⟨_, hop⟩ := hop
  cases hop with
  | scale _ _ _ _ hsn => exact hsn.2.trans (congrArg _ hsn.count.symm)
  | product => rfl
  | add _ _ _ _ hln _ => exact hln.2.trans (congrArg _ hln.count.symm)

theorem dest_call (op : Operation) : op.call.dest = op.dest.offset := by
  cases op <;> rfl

theorem size_call (hop : op.Typed d) : op.call.size = op.dest.item.count := by
  obtain ⟨_, hop⟩ := hop
  cases hop with
  | scale _ _ _ hdn hsn => exact hsn.count.trans hdn.count.symm
  | product _ _ _ _ hdn _ => exact hdn.count.symm
  | add _ _ _ hdn hln _ => exact hln.count.trans hdn.count.symm

end Operation

namespace Binding

variable {d : Directory} {a : Arena} {x y : Binding}

theorem offset_add_count_le (h : LaidOut .gpu d a) (hx : x.Recorded d) : x.offset + x.item.count ≤ a.size :=
  (h.stored hx.2).inside

theorem matrix_count (h : LaidOut .gpu d a) (hx : x.Recorded d) (hk : x.kind = .matrix) :
    x.item.rows * x.item.cols = x.item.count := by
  have hcounted := (h.stored hx.2).counted
  rw [Item.elementCount, (h.stored hx.2).matrix_shape hk] at hcounted
  exact (Size.mul_eq_ok.1 (Size.product_pair_eq_ok hcounted)).2

/-- two bindings have the same item, or their elements are apart -/
theorem same_or_apart (h : LaidOut .gpu d a) (hx : x.Recorded d) (hy : y.Recorded d) :
    x.item = y.item ∨ x.offset + x.item.count ≤ y.offset ∨ y.offset + y.item.count ≤ x.offset := by
  by_cases hn : x.name = y.name
  · left
    have hi := hx.2
    rw [hn, hy.2] at hi
    exact (Option.some.inj hi).symm
  · exact .inr (h.apart hn hx.2 hy.2)

/-- elements of vectors of one length, at different indices -/
theorem element_ne (h : LaidOut .gpu d a) (hx : x.Recorded d) (hy : y.Recorded d) {w gid gid' : Nat}
    (hxw : x.item.count = w) (hyw : y.item.count = w) (hg : gid < w) (hg' : gid' < w) (hne : gid ≠ gid') :
    x.offset + gid ≠ y.offset + gid' := by
  rcases same_or_apart h hx hy with hi | hi
  · have ho : x.offset = y.offset := congrArg Item.offset hi
    omega
  · omega

/-- an entry of a matrix and an element of a vector -/
theorem entry_ne (h : LaidOut .gpu d a) (hx : x.Recorded d) (hy : y.Recorded d) (hxk : x.kind = .matrix)
    (hyk : y.kind = .vector) {i gid : Nat} (hi : i < x.item.count) (hg : gid < y.item.count) :
    x.offset + i ≠ y.offset + gid := by
  rcases same_or_apart h hx hy with he | he
  · have hk : x.kind = y.kind := congrArg Item.kind he
    rw [hxk, hyk] at hk
    cases hk
  · omega

end Binding

/-! ## What calls touch -/

/-- ranges that do not overlap have no element in common -/
theorem Shader.Range.ne_of_overlaps_eq_false {r r' : Range} (h : r.overlaps r' = false) {i j : Nat}
    (hi : r.start ≤ i ∧ i < r.stop) (hj : r'.start ≤ j ∧ j < r'.stop) : i ≠ j := by
  simp only [overlaps, Bool.and_eq_false_iff, decide_eq_false_iff_not] at h
  omega

namespace Shader.Call

/-- whether one call gathers elements that another one writes -/
def gathers (c c' : Call) : Bool :=
  match c with
  | product _ _ vector _ cols => Range.overlaps ⟨vector, vector + cols⟩ ⟨c'.dest, c'.dest + c'.size⟩
  | _ => false

variable {c c' : Call} {n : Nat}

theorem written_eq (h : c.Fits n) (hn : n < Size.bound) : c.written = .ok ⟨c.dest, c.dest + c.size⟩ := by
  have hadd : Size.add c.dest c.size = .ok (c.dest + c.size) := by
    refine Size.add_eq_ok.2 ⟨?_, rfl⟩
    cases c <;> exact lt_of_le_of_lt h.1 hn
  cases c <;> exact bind_eq_ok.2 ⟨_, hadd, rfl⟩

theorem extent_eq (h : c.Fits n) (hn : n < Size.bound) : ∃ k ≤ n, c.extent = .ok k := by
  have hadd {i len : Nat} (hle : i + len ≤ n) : Size.add i len = .ok (i + len) :=
    Size.add_eq_ok.2 ⟨lt_of_le_of_lt hle hn, rfl⟩
  cases c with
  | scale dest src len factor =>
    obtain ⟨hd, hs⟩ := h
    refine ⟨max (dest + len) (src + len), max_le hd hs, ?_⟩
    rw [extent, hadd hd, ok_bind, hadd hs]
    rfl
  | product dest matrix vector rows cols =>
    obtain ⟨hd, hm, hv⟩ := h
    have hmul : Size.mul rows cols = .ok (rows * cols) := Size.mul_eq_ok.2 ⟨by omega, rfl⟩
    refine ⟨max (max (dest + rows) (matrix + rows * cols)) (vector + cols), max_le (max_le hd hm) hv, ?_⟩
    rw [extent, hadd hd, ok_bind, hmul, ok_bind, hadd hm, ok_bind, hadd hv]
    rfl
  | add dest lhs rhs len =>
    obtain ⟨hd, hl, hr⟩ := h
    refine ⟨max (max (dest + len) (lhs + len)) (rhs + len), max_le (max_le hd hl) hr, ?_⟩
    rw [extent, hadd hd, ok_bind, hadd hl, ok_bind, hadd hr]
    rfl

theorem gathersFrom_eq (h : c.Fits n) (h' : c'.Fits n) (hn : n < Size.bound) :
    c.gathersFrom c' = .ok (c.gathers c') := by
  cases c with
  | scale => rfl
  | product dest matrix vector rows cols =>
    have hadd : Size.add vector cols = .ok (vector + cols) := Size.add_eq_ok.2 ⟨lt_of_le_of_lt h.2.2 hn, rfl⟩
    simp only [gathersFrom, gathered, hadd, ok_bind, written_eq h' hn]
    rfl
  | add => rfl

end Shader.Call

namespace Operation

variable {d : Directory} {a : Arena} {op op' : Operation}

/-- a lowered operation stays inside the arena -/
theorem call_fits (h : LaidOut .gpu d a) (hop : op.Typed d) : op.call.Fits a.size := by
  obtain ⟨_, hop⟩ := hop
  cases hop with
  | scale hdest hsrc _ hdn hsn =>
    have hd := Binding.offset_add_count_le h hdest
    have hs := Binding.offset_add_count_le h hsrc
    rw [hdn.count, ← hsn.count] at hd
    exact ⟨hd, hs⟩
  | product hdest hmatrix hvector hmk hdn hvn =>
    have hd := Binding.offset_add_count_le h hdest
    have hm := Binding.offset_add_count_le h hmatrix
    have hv := Binding.offset_add_count_le h hvector
    rw [hdn.count] at hd
    rw [← Binding.matrix_count h hmatrix hmk] at hm
    rw [hvn.count] at hv
    exact ⟨hd, hm, hv⟩
  | add hdest hlhs hrhs hdn hln hrn =>
    have hd := Binding.offset_add_count_le h hdest
    have hl := Binding.offset_add_count_le h hlhs
    have hr := Binding.offset_add_count_le h hrhs
    rw [hdn.count, ← hln.count] at hd
    rw [hrn.count, ← hln.count] at hr
    exact ⟨hd, hl, hr⟩

/-- an invocation reads nothing that another call of its size writes at another index, unless it gathers it -/
theorem not_reads_of_ne (h : LaidOut .gpu d a) (hop : op.Typed d) (hop' : op'.Typed d)
    (hsize : op.call.size = op'.call.size)
    (hgather : op.call.gathers op'.call = false) {gid gid' : Nat} (hg : gid < op.call.size) (hg' : gid' < op.call.size)
    (hne : gid ≠ gid') : ¬op.call.Reads gid (op'.call.dest + gid') := by
  have hdest' := hop'.dest_recorded
  have hkind' := hop'.dest_isVector.1
  have hcount' := (size_call hop').symm.trans hsize.symm
  rw [dest_call]
  obtain ⟨_, hop⟩ := hop
  cases hop with
  | @scale dest src _ _ n _ hsrc _ _ hsn =>
    intro hread
    exact Binding.element_ne h hsrc hdest' rfl hcount' hg hg' hne hread.symm
  | @product dest matrix vector _ hmatrix hvector hmk _ hvn =>
    intro hread
    obtain ⟨k, hk, hread | hread⟩ := hread
    · have hin : gid * matrix.item.cols + k < matrix.item.count := by
        rw [← Binding.matrix_count h hmatrix hmk]
        calc gid * matrix.item.cols + k < gid * matrix.item.cols + matrix.item.cols := Nat.add_lt_add_left hk _
          _ = (gid + 1) * matrix.item.cols := (Nat.succ_mul _ _).symm
          _ ≤ matrix.item.rows * matrix.item.cols := Nat.mul_le_mul_right _ hg
      rw [Nat.add_assoc] at hread
      exact Binding.entry_ne h hmatrix hdest' hmk hkind' hin (hg'.trans_eq hcount'.symm) hread.symm
    · have hrange : Shader.Range.overlaps ⟨vector.offset, vector.offset + matrix.item.cols⟩
          ⟨op'.call.dest, op'.call.dest + op'.call.size⟩ = false := hgather
      rw [dest_call, ← hsize] at hrange
      exact Shader.Range.ne_of_overlaps_eq_false hrange ⟨by simp, by simpa using hk⟩
        ⟨by simp, Nat.add_lt_add_left hg' _⟩ hread.symm
  | @add dest lhs rhs n _ hlhs hrhs _ hln hrn =>
    intro hread
    rcases hread with hread | hread
    · exact Binding.element_ne h hlhs hdest' rfl hcount' hg hg' hne hread.symm
    · have hr : rhs.item.count = lhs.item.count := hrn.count.trans hln.count.symm
      exact Binding.element_ne h hrhs hdest' hr hcount' hg hg' hne hread.symm

/-- invocations of two calls of one size at different indices commute, if neither call gathers what the other writes -/
theorem effect_comm_of_ne (h : LaidOut .gpu d a) (hop : op.Typed d) (hop' : op'.Typed d)
    (hsize : op.call.size = op'.call.size) (hgather : op.call.gathers op'.call = false)
    (hgather' : op'.call.gathers op.call = false) {gid gid' : Nat} (hg : gid < op.call.size) (hg' : gid' < op.call.size)
    (hne : gid ≠ gid') (m : DeviceMemory) :
    op.call.effect gid (op'.call.effect gid' m) = op'.call.effect gid' (op.call.effect gid m) := by
  refine Call.effect_comm ?_ (not_reads_of_ne h hop hop' hsize hgather hg hg' hne)
    (not_reads_of_ne h hop' hop hsize.symm hgather' (hg'.trans_eq hsize) (hg.trans_eq hsize) hne.symm) m
  rw [dest_call, dest_call]
  exact Binding.element_ne h hop.dest_recorded hop'.dest_recorded (size_call hop).symm
    ((size_call hop').symm.trans hsize.symm) hg hg' hne

end Operation

/-! ## Grouping -/

namespace Shader

/-- a group of one work size in which no call gathers what a call of the group writes -/
structure Group.Sound (g : Group) : Prop where
  nonempty : g.snippets ≠ []
  uniform : ∀ s ∈ g.snippets, s.workSize = g.workSize
  apart : ∀ s ∈ g.snippets, ∀ t ∈ g.snippets, s.call.gathers t.call = false

variable {n : Nat} {s t : Snippet}

theorem ranged_of_fits (h : s.call.Fits n) (hn : n < Size.bound) : s.Ranged := by
  refine ⟨⟨_, Call.written_eq h hn⟩, ?_⟩
  cases hcall : s.call with
  | scale => exact ⟨none, rfl⟩
  | product dest matrix vector rows cols =>
    rw [hcall] at h
    exact ⟨_, bind_eq_ok.2 ⟨_, Size.add_eq_ok.2 ⟨lt_of_le_of_lt h.2.2 hn, rfl⟩, rfl⟩⟩
  | add => exact ⟨none, rfl⟩

theorem gathersFrom_iff (hs : s.call.Fits n) (ht : t.call.Fits n) (hn : n < Size.bound) :
    s.GathersFrom t ↔ s.call.gathers t.call = true :=
  (Snippet.gathersFrom_eq_ok (Call.gathersFrom_eq hs ht hn)).symm

/-- a valid group is sound if no snippet in it gathers what it writes itself -/
theorem Group.Valid.sound {g : Group} (hg : g.Valid) (hfits : ∀ s ∈ g.snippets, s.call.Fits n)
    (hself : ∀ s ∈ g.snippets, s.call.gathers s.call = false) (hn : n < Size.bound) : g.Sound := by
  have halone : ∀ s ∈ g.snippets, ¬s.Clashes s := by
    intro s hs hclash
    have hgathers := (gathersFrom_iff (hfits s hs) (hfits s hs) hn).1 (or_self_iff.1 hclash)
    rw [hself s hs] at hgathers
    cases hgathers
  have hsymm : Std.Symm fun s t : Snippet => ¬s.Clashes t := ⟨fun _ _ h hclash => h hclash.symm⟩
  have hapart := hg.apart.forall_of_forall halone
  refine ⟨hg.nonempty, hg.uniform, ?_⟩
  intro s hs t ht
  rw [← Bool.not_eq_true, ← gathersFrom_iff (hfits s hs) (hfits t ht) hn]
  exact fun hgathers => hapart hs ht (.inl hgathers)

/-- grouping succeeds: it cuts the snippets into consecutive sound groups -/
theorem groups_eq_ok {snippets : List Snippet} (hfits : ∀ s ∈ snippets, s.call.Fits n)
    (hself : ∀ s ∈ snippets, s.call.gathers s.call = false) (hn : n < Size.bound) :
    ∃ gs, groups snippets = .ok gs ∧ gs.flatMap (·.snippets) = snippets ∧ ∀ g ∈ gs, g.Sound := by
  obtain ⟨gs, hgs⟩ := exists_groups fun s hs => ranged_of_fits (hfits s hs) hn
  obtain ⟨hflat, hvalid, -⟩ := groups_spec hgs
  have hmem {g : Group} (hg : g ∈ gs) {s : Snippet} (hs : s ∈ g.snippets) : s ∈ snippets :=
    hflat ▸ List.mem_flatMap.2 ⟨g, hg, hs⟩
  refine ⟨gs, hgs, hflat, ?_⟩
  intro g hg
  exact (hvalid g hg).sound (fun s hs => hfits s (hmem hg hs)) (fun s hs => hself s (hmem hg hs)) hn

end Shader

/-! ## Dispatches of groups -/

/-- a snippet of an operation that the directory types -/
def Shader.Snippet.Lowers (d : Directory) (s : Snippet) : Prop :=
  ∃ op : Operation, op.Typed d ∧ s.call = op.call ∧ s.workSize = op.call.size ∧ op.call.gathers op.call = false

section

variable {d : Directory} {a : Arena}

/-- a resolved command is lowered unless its call gathers what it writes -/
theorem ofResolved_eq_ok (h : LaidOut .gpu d a) {r : Resolved} (hop : r.operation.Typed d) {s : Snippet} :
    Snippet.ofResolved r = .ok s ↔
      r.operation.call.gathers r.operation.call = false ∧ ⟨r.text, r.operation.call, r.operation.call.size⟩ = s := by
  have hfits := Operation.call_fits h hop
  have hself := Call.gathersFrom_eq hfits hfits h.size_lt
  simp only [Snippet.ofResolved, bind_eq_ok, lift_fault_eq_ok, Operation.ofOperation_eq hop, Operation.workSize_eq hop,
    hself, Except.ok.injEq, exists_eq_left']
  cases r.operation.call.gathers r.operation.call <;> simp [throw, throwThe, MonadExceptOf.throw]

/-- the memory after the snippets, one after the other over all their indices -/
def DeviceMemory.sweepAll (snippets : List Snippet) (m : DeviceMemory) : DeviceMemory :=
  snippets.foldl (fun m s => m.sweep [s.call] s.workSize) m

@[simp]
theorem DeviceMemory.size_sweepAll (snippets : List Snippet) (m : DeviceMemory) :
    (sweepAll snippets m).size = m.size := by
  induction snippets generalizing m with
  | nil => rfl
  | cons s snippets ih => exact (ih _).trans (size_sweep _ _ m)

/-- run one after the other, snippets fold the effects of their invocations -/
theorem run_snippets {snippets : List Snippet} {m : DeviceMemory} (hfits : ∀ s ∈ snippets, s.call.Fits m.size) :
    snippets.foldlM (fun m s => DeviceMemory.run [s.call] s.workSize m) m = .ok (m.sweepAll snippets) := by
  induction snippets generalizing m with
  | nil => rfl
  | cons s snippets ih =>
    have hs : ∀ c ∈ [s.call], c.Fits m.size := fun c hc => by
      rw [List.mem_singleton.1 hc]
      exact hfits s List.mem_cons_self
    have hrest : ∀ t ∈ snippets, t.call.Fits (m.sweep [s.call] s.workSize).size := fun t ht => by
      rw [DeviceMemory.size_sweep]
      exact hfits t (List.mem_cons_of_mem s ht)
    rw [List.foldlM_cons, DeviceMemory.run_eq hs, ok_bind]
    exact ih hrest

theorem le_workgroups_mul {w ls : Nat} (hls : 1 ≤ ls) : w ≤ (w + ls - 1) / ls * ls := by
  have hdiv := Nat.div_add_mod (w + ls - 1) ls
  have hmod := Nat.mod_lt (w + ls - 1) hls
  rw [Nat.mul_comm] at hdiv
  omega

/-- a dispatch of a sound group does what its snippets do one after the other -/
theorem run_group (h : LaidOut .gpu d a) {g : Group} (hg : g.Sound) (hlow : ∀ s ∈ g.snippets, s.Lowers d)
    {m : DeviceMemory} (hm : m.size = a.size) {ls : Nat} (hls : 1 ≤ ls) :
    DeviceMemory.run g.calls ((g.workSize + ls - 1) / ls * ls) m = .ok (m.sweepAll g.snippets) := by
  have hmem {c : Call} (hc : c ∈ g.calls) : ∃ s ∈ g.snippets, s.call = c := List.mem_map.1 hc
  have hsize {s : Snippet} (hs : s ∈ g.snippets) : s.call.size = g.workSize := by
    obtain ⟨op, -, hcall, hwork, -⟩ := hlow s hs
    rw [hcall, ← hwork, hg.uniform s hs]
  have hfits : ∀ c ∈ g.calls, c.Fits m.size := by
    intro c hc
    obtain ⟨s, hs, rfl⟩ := hmem hc
    obtain ⟨op, hop, hcall, -⟩ := hlow s hs
    rw [hm, hcall]
    exact Operation.call_fits h hop
  obtain ⟨k, hk⟩ := Nat.exists_eq_add_of_le (le_workgroups_mul (w := g.workSize) hls)
  have hle : ∀ c ∈ g.calls, c.size ≤ g.workSize := by
    intro c hc
    obtain ⟨s, hs, rfl⟩ := hmem hc
    exact (hsize hs).le
  rw [DeviceMemory.run_eq hfits, hk, DeviceMemory.sweep_surplus hle, DeviceMemory.sweep_eq_sweeps]
  · rw [DeviceMemory.sweeps, DeviceMemory.sweepAll, Group.calls, List.foldl_map]
    congr 1
    apply List.foldl_ext
    intro m s hs
    rw [hg.uniform s hs]
  · intro c hc c' hc' gid hgid gid' hgid' hne m
    obtain ⟨s, hs, rfl⟩ := hmem hc
    obtain ⟨t, ht, rfl⟩ := hmem hc'
    have hst := hg.apart s hs t ht
    have hts := hg.apart t ht s hs
    have hws := hsize hs
    have hwt := hsize ht
    obtain ⟨op, hop, hcall, -⟩ := hlow s hs
    obtain ⟨op', hop', hcall', -⟩ := hlow t ht
    rw [hcall] at hst hts hws ⊢
    rw [hcall'] at hst hts hwt ⊢
    exact Operation.effect_comm_of_ne h hop hop' (hws.trans hwt.symm) hst hts (hgid.trans_eq hws.symm)
      (hgid'.trans_eq hws.symm) hne m

/-- the dispatches of sound groups do what all their snippets do in order -/
theorem run_groups (h : LaidOut .gpu d a) {gs : List Group} (hgs : ∀ g ∈ gs, g.Sound)
    (hlow : ∀ s ∈ gs.flatMap (·.snippets), s.Lowers d) {m : DeviceMemory} (hm : m.size = a.size) {ls : Nat}
    (hls : 1 ≤ ls) :
    gs.foldlM (fun m g => DeviceMemory.run g.calls ((g.workSize + ls - 1) / ls * ls) m) m =
      .ok (m.sweepAll (gs.flatMap (·.snippets))) := by
  induction gs generalizing m with
  | nil => rfl
  | cons g gs ih =>
    have hrun := run_group h (hgs g List.mem_cons_self) (fun s hs => hlow s (by simp [hs])) hm hls
    have hrest : ∀ s ∈ gs.flatMap (·.snippets), s.Lowers d := fun s hs => hlow s (List.mem_append_right _ hs)
    rw [List.foldlM_cons, hrun, ok_bind,
      ih (fun g' hg' => hgs g' (List.mem_cons_of_mem g hg')) hrest (by simpa using hm)]
    rw [List.flatMap_cons, DeviceMemory.sweepAll, DeviceMemory.sweepAll, DeviceMemory.sweepAll, List.foldl_append]

theorem lowers_of_mapM (h : LaidOut .gpu d a) {commands : List String} {rs : List Resolved}
    (hrs : commands.mapM (Command.resolve d) = .ok rs) {snippets : List Snippet}
    (hs : rs.mapM Snippet.ofResolved = .ok snippets) : ∀ s ∈ snippets, s.Lowers d := by
  intro s hmem
  obtain ⟨r, hr, hsr⟩ := exists_of_mem_mapM hs hmem
  obtain ⟨command, -, hcr⟩ := exists_of_mem_mapM hrs hr
  have hop := Command.typed_of_resolve hcr
  obtain ⟨hself, rfl⟩ := (ofResolved_eq_ok h hop).1 hsr
  exact ⟨r.operation, hop, rfl, rfl, hself⟩

/-- lowered snippets are grouped, and the dispatches of the groups do what the snippets do in order -/
theorem groups_eq_sweepAll (h : LaidOut .gpu d a) {snippets : List Snippet} (hlow : ∀ s ∈ snippets, s.Lowers d)
    {m : DeviceMemory} (hm : m.size = a.size) {ls : Nat} (hls : 1 ≤ ls) :
    ∃ gs, Shader.groups snippets = .ok gs ∧ gs.flatMap (·.snippets) = snippets ∧ (∀ g ∈ gs, g.Sound) ∧
      gs.foldlM (fun m g => DeviceMemory.run g.calls ((g.workSize + ls - 1) / ls * ls) m) m =
      .ok (m.sweepAll snippets) ∧
      ∀ s ∈ snippets, s.call.Fits m.size := by
  have hfits : ∀ s ∈ snippets, s.call.Fits a.size := by
    intro s hs
    obtain ⟨op, hop, hcall, -⟩ := hlow s hs
    rw [hcall]
    exact Operation.call_fits h hop
  have hself : ∀ s ∈ snippets, s.call.gathers s.call = false := by
    intro s hs
    obtain ⟨op, -, hcall, -, hself⟩ := hlow s hs
    rw [hcall]
    exact hself
  obtain ⟨gs, hgs, hflat, hsound⟩ := Shader.groups_eq_ok hfits hself h.size_lt
  have hrun := run_groups h hsound (hflat.symm ▸ hlow) hm hls
  rw [hflat] at hrun
  exact ⟨gs, hgs, hflat, hsound, hrun, hm.symm ▸ hfits⟩

end

namespace Session

variable {δ : Type} [Device δ] [LawfulDevice δ]

/-- **Fusion preserves meaning.** On a buffer of any session, commands that resolve and lower can be grouped, and the
dispatches of the groups, each over whole workgroups, leave the memory that the snippets leave one after the other, each
over its own indices. Neither faults. -/
theorem groups_preserve (actions : List (Action δ)) {i : Nat} {buf : Buffer .gpu}
    (hx : (run .empty actions).buffers[i]? = some ⟨.gpu, buf⟩) {commands : List String} {rs : List Resolved}
    (hrs : commands.mapM (Command.resolve buf.directory) = .ok rs) {snippets : List Snippet}
    (hs : rs.mapM Snippet.ofResolved = .ok snippets) {ls : Nat} (hls : 1 ≤ ls) {m : DeviceMemory}
    (hm : m.size = ((run .empty actions).store.arena buf.arena).size) :
    ∃ gs m', Shader.groups snippets = .ok gs ∧
      gs.foldlM (fun m g => DeviceMemory.run g.calls ((g.workSize + ls - 1) / ls * ls) m) m = .ok m' ∧
      snippets.foldlM (fun m s => DeviceMemory.run [s.call] s.workSize m) m = .ok m' := by
  have hlaid : LaidOut .gpu buf.directory _ := (wellFormed_run wellFormed_empty actions).1.laidOut hx
  obtain ⟨gs, hgs, -, -, hrun, hfits⟩ := groups_eq_sweepAll hlaid (lowers_of_mapM hlaid hrs hs) hm hls
  exact ⟨gs, m.sweepAll snippets, hgs, hrun, run_snippets hfits⟩

theorem groups_preserve_sample : ∃ (buf : Buffer .gpu) (snippets : List Snippet) (gs : List Group) (m' : DeviceMemory),
    (run .empty sample).buffers[1]? = some ⟨.gpu, buf⟩ ∧ Shader.groups snippets = .ok gs ∧
      gs.foldlM (fun m g => DeviceMemory.run g.calls ((g.workSize + 64 - 1) / 64 * 64) m) #[.zero, .negZero] = .ok m' ∧
      snippets.foldlM (fun m s => DeviceMemory.run [s.call] s.workSize m) #[.zero, .negZero] = .ok m' := by
  let commands := ["w = multiply w 2", "w = add w w"]
  have hlowers : (((run .empty sample).buffer? .gpu 1).any fun buf =>
      (commands.mapM (Command.resolve buf.directory) >>= fun rs => rs.mapM Snippet.ofResolved).toOption.isSome &&
        decide (2 = ((run .empty sample).store.arena buf.arena).size)) = true := by decide +kernel
  obtain ⟨buf, hbuf, hlowers⟩ := (Option.any_eq_true _ _).1 hlowers
  obtain ⟨hsome, hsize⟩ := Bool.and_eq_true_iff.1 hlowers
  obtain ⟨snippets, hsnippets⟩ := Option.isSome_iff_exists.1 hsome
  obtain ⟨rs, hrs, hs⟩ := bind_eq_ok.1 (toOption_eq_some.1 hsnippets)
  have hx := buffers_of_buffer? hbuf
  have hm : Array.size #[Single.zero, .negZero] = ((run .empty sample).store.arena buf.arena).size :=
    of_decide_eq_true hsize
  obtain ⟨gs, m', h⟩ := groups_preserve sample hx hrs hs (by decide : 1 ≤ 64) hm
  exact ⟨buf, snippets, gs, m', hx, h⟩

end Session

end ArrayEngine
