/-
The numbers of an arena on a device, and that the calls of commands do there what the commands come to.

An arena passes to a device and back as bytes, without loss (`Bytes.toWords_ofWords`); `Arena.memory` is what the device
then holds.
- `getElem?_sweep`: a call none of whose invocations reads what another one writes sets every element of its range to
  the value it has for the memory before;
- `results_getElem?`: for the call of an operation these values are the results of the operation. A matrix must have a
  column: the sum of no products is -0.0 on a device, and +0.0 on the host;
- `applied`: what an operation does to an arena on each backend. They only differ for a matrix without columns
  (`applied_eq_after`);
- `sweepAll_memory`: so the calls of commands leave the memory of the arena that `Command.applyAll` says.
-/
import ArrayEngine.Proofs.Fusion

namespace ArrayEngine

open Shader (Call Snippet)

/-! ## Bytes -/

namespace Bytes

theorem toWord_ofWord (w : UInt32) :
    toWord w.toUInt8 (w >>> 8).toUInt8 (w >>> 16).toUInt8 (w >>> 24).toUInt8 = w := by
  apply UInt32.toBitVec_inj.1
  apply BitVec.eq_of_getLsbD_eq
  intro i hi
  simp only [toWord, UInt32.toBitVec_or, UInt32.toBitVec_shiftLeft, UInt8.toBitVec_toUInt32, UInt32.toBitVec_toUInt8,
    UInt32.toBitVec_shiftRight]
  simp [BitVec.getLsbD_setWidth, hi]
  -- bit `i` comes from the byte that it lies in
  grind

theorem toWords_ofWords (ws : List UInt32) : toWords (ofWords ws) = ws := by
  induction ws with
  | nil => rfl
  | cons w ws ih =>
    change toWord w.toUInt8 (w >>> 8).toUInt8 (w >>> 16).toUInt8 (w >>> 24).toUInt8 :: toWords (ofWords ws) = w :: ws
    rw [toWord_ofWord, ih]

end Bytes

namespace Arena

/-- the numbers of an arena, as a device holds them -/
def memory (a : Arena) : DeviceMemory := a.words.map Single.mk

@[simp]
theorem size_memory (a : Arena) : a.memory.size = a.size := Array.size_map

/-- the arena with the numbers of a memory -/
def ofMemory (m : DeviceMemory) : Arena := ⟨m.map Single.bits⟩

theorem memory_ofMemory (m : DeviceMemory) : (ofMemory m).memory = m := by
  simp [memory, ofMemory, Function.comp_def]

theorem ofMemory_memory (a : Arena) : ofMemory a.memory = a := by
  simp [memory, ofMemory, Function.comp_def]

theorem getElem?_memory (a : Arena) (j : Nat) : a.memory[j]? = a.words[j]?.map Single.mk := Array.getElem?_map

theorem toArray_toWords_bytes (a : Arena) : ((Bytes.toWords a.bytes).map Single.mk).toArray = a.memory := by
  rw [bytes, Bytes.toWords_ofWords, memory, ← List.map_toArray, Array.toArray_toList]

theorem ofBytes_memory (a : Arena) : ofBytes (Bytes.ofWords (a.memory.toList.map Single.bits)) = a := by
  have hbits : a.memory.toList.map Single.bits = a.words.toList := by simp [memory, Function.comp_def]
  rw [ofBytes, hbits, Bytes.toWords_ofWords]

end Arena

/-! ## One call -/

namespace DeviceMemory

/-- a call whose invocations read nothing that other ones write: the elements below `n` of its range hold their
values -/
theorem getElem?_sweep {c : Call} {m : DeviceMemory}
    (hself : ∀ gid < c.size, ∀ gid' < c.size, gid ≠ gid' → ¬c.Reads gid (c.dest + gid'))
    (hfit : c.dest + c.size ≤ m.size) {n : Nat} (hn : n ≤ c.size) (j : Nat) :
    (sweep [c] n m)[j]? = if c.dest ≤ j ∧ j < c.dest + n then some (c.valueAt (j - c.dest) m) else m[j]? := by
  induction n generalizing j with
  | zero =>
    have hout : ¬(c.dest ≤ j ∧ j < c.dest + 0) := by omega
    rw [if_neg hout]
    rfl
  | succ n ih =>
    -- invocation `n` reads nothing that an earlier one wrote
    have hvalue : c.valueAt n (sweep [c] n m) = c.valueAt n m := by
      apply Call.valueAt_congr
      intro i hi
      have hunwritten : ¬(c.dest ≤ i ∧ i < c.dest + n) := by
        intro hin
        refine hself n (by omega) (i - c.dest) (by omega) (by omega) ?_
        rwa [Nat.add_sub_cancel' hin.1]
      rw [elementAt, elementAt, ih (by omega), if_neg hunwritten]
    have heffect : sweep [c] (n + 1) m = (sweep [c] n m).setIfInBounds (c.dest + n) (c.valueAt n m) := by
      rw [sweep_succ, ← hvalue]
      exact c.effect_of_lt (by omega) _
    rw [heffect, Array.getElem?_setIfInBounds, ih (by omega), size_sweep]
    by_cases hj : c.dest + n = j
    · have hin : c.dest ≤ j ∧ j < c.dest + (n + 1) := by omega
      have hlt : j < m.size := by omega
      have hindex : j - c.dest = n := by omega
      rw [if_pos hj, hj, if_pos hlt, if_pos hin, hindex]
    · have hiff : (c.dest ≤ j ∧ j < c.dest + (n + 1)) ↔ (c.dest ≤ j ∧ j < c.dest + n) := by omega
      rw [if_neg hj, if_congr hiff rfl rfl]

/-- the sum of products along two ranges that hold the numbers of two lists -/
theorem dotAt_eq {m : DeviceMemory} {xs ys : List Single} (hlen : xs.length = ys.length) {i j : Nat}
    (hx : ∀ k < xs.length, xs[k]? = some (m.elementAt (i + k)))
    (hy : ∀ k < ys.length, ys[k]? = some (m.elementAt (j + k)))
    (acc : Single) : m.dotAt i j xs.length acc = (xs.zipWith (· * ·) ys).foldl (· + ·) acc := by
  induction xs generalizing ys i j acc with
  | nil => rfl
  | cons x xs ih =>
    cases ys with
    | nil => cases hlen
    | cons y ys =>
      have hx0 : x = m.elementAt i := Option.some.inj (hx 0 (Nat.succ_pos _))
      have hy0 : y = m.elementAt j := Option.some.inj (hy 0 (Nat.succ_pos _))
      rw [List.length_cons, dotAt, List.zipWith_cons_cons, List.foldl_cons, hx0, hy0]
      apply ih (Nat.succ.inj hlen)
      · intro k hk
        rw [Nat.add_right_comm, Nat.add_assoc]
        exact hx (k + 1) (Nat.succ_lt_succ hk)
      · intro k hk
        rw [Nat.add_right_comm, Nat.add_assoc]
        exact hy (k + 1) (Nat.succ_lt_succ hk)

end DeviceMemory

/-! ## Operations -/

theorem Kernel.getElem?_rowsOf (cols rows : Nat) (data : List Single) {r : Nat} (hr : r < rows) :
    (rowsOf cols rows data)[r]? = some ((data.drop (r * cols)).take cols) := by
  induction rows generalizing data r with
  | zero => exact absurd hr (Nat.not_lt_zero r)
  | succ rows ih =>
    cases r with
    | zero => simp [rowsOf]
    | succ r =>
      rw [rowsOf, List.getElem?_cons_succ, ih _ (Nat.lt_of_succ_lt_succ hr), List.drop_drop, Nat.succ_mul, Nat.add_comm]

namespace Operation

/-- whether every matrix operand has a column -/
def HasColumns (op : Operation) : Prop := ∀ x ∈ op.bindings, x.kind = .matrix → 0 < x.item.cols

instance (op : Operation) : Decidable op.HasColumns :=
  inferInstanceAs (Decidable (∀ x ∈ op.bindings, x.kind = .matrix → 0 < x.item.cols))

variable {d : Directory} {a : Arena} {op : Operation} {x : Binding}

/-- an element of a binding, by its index -/
theorem getElem?_held (h : LaidOut .gpu d a) (hx : x.Recorded d) {k : Nat} (hk : k < x.item.count) :
    (x.held .gpu a)[k]? = some (a.memory.elementAt (x.offset + k)) := by
  have hin := Binding.offset_add_count_le h hx
  have hlt : x.offset + k < a.words.size := by
    have hsize : a.size = a.words.size := rfl
    omega
  have hword : x.item.bodyWord .gpu = x.offset := rfl
  rw [Binding.held, Item.elements, Arena.getElem?_numbers, if_pos hk, hword, DeviceMemory.elementAt,
    Arena.getElem?_memory, Array.getElem?_eq_getElem hlt]
  rfl

/-- the results of an operation are the values of its call -/
theorem results_getElem? (h : LaidOut .gpu d a) (hop : op.Typed d) (hcols : op.HasColumns) {k : Nat}
    (hk : k < op.call.size) :
    (op.results (Binding.held .gpu a))[k]? = some (op.call.valueAt k a.memory) := by
  obtain ⟨_, hop⟩ := hop
  cases hop with
  | @scale dest src _ factor n _ hsrc _ _ hsn =>
    have hs := getElem?_held h hsrc (k := k) hk
    rw [results, List.getElem?_map, hs]
    rfl
  | @product dest matrix vector _ hmatrix hvector hmk _ hvn =>
    have hcol : 0 < matrix.item.cols := hcols matrix (by simp [bindings]) hmk
    have hrows : k < matrix.item.rows := hk
    have hcount := Binding.matrix_count h hmatrix hmk
    have hentry {j : Nat} (hj : j < matrix.item.cols) : k * matrix.item.cols + j < matrix.item.count := by
      rw [← hcount]
      calc k * matrix.item.cols + j < k * matrix.item.cols + matrix.item.cols := Nat.add_lt_add_left hj _
        _ = (k + 1) * matrix.item.cols := (Nat.succ_mul _ _).symm
        _ ≤ matrix.item.rows * matrix.item.cols := Nat.mul_le_mul_right _ hrows
    have hvlen : (vector.held .gpu a).length = matrix.item.cols := (Binding.length_held h hvector).trans hvn.count
    have hrow : (((matrix.held .gpu a).drop (k * matrix.item.cols)).take matrix.item.cols).length =
          matrix.item.cols := by
      have hlast := hentry (Nat.sub_lt hcol Nat.one_pos)
      rw [List.length_take, List.length_drop, Binding.length_held h hmatrix]
      omega
    have hpos : matrix.item.cols ≠ 0 := Nat.ne_of_gt hcol
    rw [results, Kernel.products, if_neg hpos, List.getElem?_map, Kernel.getElem?_rowsOf _ _ _ hrows, Option.map_some]
    refine congrArg some (Eq.symm ?_)
    have hdot := DeviceMemory.dotAt_eq (m := a.memory) (i := matrix.offset + k * matrix.item.cols) (j := vector.offset)
      (hrow.trans hvlen.symm) (fun i hi => ?_) (fun i hi => ?_) .negZero
    · rw [hrow] at hdot
      exact hdot
    · rw [hrow] at hi
      rw [List.getElem?_take_of_lt hi, List.getElem?_drop, Nat.add_assoc]
      exact getElem?_held h hmatrix (hentry hi)
    · rw [hvlen] at hi
      exact getElem?_held h hvector (hi.trans_eq hvn.count.symm)
  | @add dest lhs rhs n _ hlhs hrhs _ hln hrn =>
    have hl := getElem?_held h hlhs (k := k) hk
    have hr := getElem?_held h hrhs (k := k) (hk.trans_eq (hln.count.trans hrn.count.symm))
    rw [results, List.getElem?_zipWith, hl, hr]
    rfl

/-- what a device holds after the call of an operation has run over all its indices -/
theorem getElem?_sweep_call (h : LaidOut .gpu d a) (hop : op.Typed d) (hself : op.call.gathers op.call = false)
    (j : Nat) : (a.memory.sweep [op.call] op.call.size)[j]? =
      if op.call.dest ≤ j ∧ j < op.call.dest + op.call.size then some (op.call.valueAt (j - op.call.dest) a.memory)
      else a.memory[j]? := by
  have hfit : op.call.dest + op.call.size ≤ a.memory.size := by
    rw [dest_call, size_call hop, Arena.size_memory]
    exact Binding.offset_add_count_le h hop.dest_recorded
  exact DeviceMemory.getElem?_sweep (fun gid hg gid' hg' hne => not_reads_of_ne h hop hop rfl hself hg hg' hne) hfit
    le_rfl j

/-- what an arena holds after an operation -/
theorem getElem?_after (h : LaidOut .gpu d a) (hop : op.Typed d) (j : Nat) : (op.after .gpu a).memory[j]? =
    if op.call.dest ≤ j ∧ j < op.call.dest + op.call.size then
      (op.results (Binding.held .gpu a))[j - op.call.dest]?
    else a.memory[j]? := by
  have hlen : ((op.results (Binding.held .gpu a)).map Single.bits).length = op.call.size := by
    rw [List.length_map, length_results h hop, size_call hop]
  have hput : op.call.dest + ((op.results (Binding.held .gpu a)).map Single.bits).length ≤ a.words.size := by
    rw [hlen, dest_call, size_call hop]
    exact Binding.offset_add_count_le h hop.dest_recorded
  have hword : op.dest.item.bodyWord .gpu = op.call.dest := (dest_call op).symm
  rw [after, hword, Arena.getElem?_memory, Arena.getElem?_memory, Arena.put, Arena.getElem?_overwrite _ _ _ hput, hlen]
  split_ifs
  · rw [List.getElem?_map, Option.map_map]
    exact Option.map_id'
  · rfl

/-- the call of an operation, over all its indices, has the effect of the operation -/
theorem sweep_call (h : LaidOut .gpu d a) (hop : op.Typed d) (hself : op.call.gathers op.call = false)
    (hcols : op.HasColumns) : a.memory.sweep [op.call] op.call.size = (op.after .gpu a).memory := by
  apply Array.ext_getElem?
  intro j
  rw [getElem?_sweep_call h hop hself, getElem?_after h hop]
  split_ifs with hj
  · rw [results_getElem? h hop hcols (by omega)]
  · rfl

/-- the arena after an operation. On the host the destination holds the results; on a device the call of the operation
has run over all its indices -/
def applied (b : Backend) (a : Arena) (op : Operation) : Arena :=
  match b with
  | .cpu => op.after .cpu a
  | .gpu => .ofMemory (a.memory.sweep [op.call] op.call.size)

@[simp]
theorem size_applied (b : Backend) (a : Arena) (op : Operation) : (applied b a op).size = a.size := by
  cases b with
  | cpu => exact Arena.size_put _ _ _
  | gpu => simp [applied, ← Arena.size_memory, Arena.memory_ofMemory]

theorem laidOut_applied {b : Backend} (h : LaidOut b d a) (hop : op.Typed d) : LaidOut b d (applied b a op) := by
  cases b with
  | cpu => exact laidOut_after h hop
  | gpu => exact h.of_size (size_applied .gpu a op)

/-- with a column in every matrix, a device does what the host does -/
theorem applied_eq_after (h : LaidOut .gpu d a) (hop : op.Typed d) (hself : op.call.gathers op.call = false)
    (hcols : op.HasColumns) : applied .gpu a op = op.after .gpu a := by
  rw [applied, sweep_call h hop hself hcols, Arena.ofMemory_memory]

end Operation

/-! ## Lists of commands -/

namespace Command

/-- the arena after a list of commands, as a backend runs them -/
def applyAll (b : Backend) (rs : List Resolved) (a : Arena) : Arena :=
  rs.foldl (fun a r => r.operation.applied b a) a

variable {b : Backend} {d : Directory} {a : Arena} {rs : List Resolved}

theorem applyAll_append (b : Backend) (rs rs' : List Resolved) (a : Arena) :
    applyAll b (rs ++ rs') a = applyAll b rs' (applyAll b rs a) := List.foldl_append

theorem size_applyAll (b : Backend) (rs : List Resolved) (a : Arena) : (applyAll b rs a).size = a.size := by
  induction rs generalizing a with
  | nil => rfl
  | cons r rs ih => exact (ih _).trans (Operation.size_applied _ _ _)

theorem size_applyAll_iterate (b : Backend) (rs : List Resolved) (n : Nat) (a : Arena) :
    ((applyAll b rs)^[n] a).size = a.size := by
  induction n generalizing a with
  | zero => rfl
  | succ n ih => rw [Function.iterate_succ_apply, ih, size_applyAll]

theorem laidOut_applyAll (h : LaidOut b d a) (ht : ∀ r ∈ rs, r.operation.Typed d) : LaidOut b d (applyAll b rs a) := by
  induction rs generalizing a with
  | nil => exact h
  | cons r rs ih =>
    exact ih (Operation.laidOut_applied h (ht r List.mem_cons_self)) fun r' hr' => ht r' (List.mem_cons_of_mem r hr')

theorem laidOut_applyAll_iterate (h : LaidOut b d a) (ht : ∀ r ∈ rs, r.operation.Typed d) (n : Nat) :
    LaidOut b d ((applyAll b rs)^[n] a) := by
  induction n generalizing a with
  | zero => exact h
  | succ n ih =>
    rw [Function.iterate_succ_apply]
    exact ih (laidOut_applyAll h ht)

/-- the calls of commands, one after the other, have the effects of the commands on a device -/
theorem sweepAll_memory (h : LaidOut .gpu d a) {snippets : List Snippet}
    (hs : List.Forall₂ (fun r s => Snippet.ofResolved r = .ok s) rs snippets)
    (ht : ∀ r ∈ rs, r.operation.Typed d) : a.memory.sweepAll snippets = (applyAll .gpu rs a).memory := by
  induction hs generalizing a with
  | nil => rfl
  | @cons r s rs snippets hr _ ih =>
    have hop := ht r List.mem_cons_self
    obtain ⟨-, rfl⟩ := (ofResolved_eq_ok h hop).1 hr
    have hrest := ih (Operation.laidOut_applied h hop) fun r' hr' => ht r' (List.mem_cons_of_mem r hr')
    rw [Operation.applied, Arena.memory_ofMemory] at hrest
    exact hrest

/-- and these are the effects that they have on the host, if every matrix has a column -/
theorem applyAll_eq_afterAll (h : LaidOut .gpu d a) {snippets : List Snippet}
    (hs : List.Forall₂ (fun r s => Snippet.ofResolved r = .ok s) rs snippets)
    (ht : ∀ r ∈ rs, r.operation.Typed d ∧ r.operation.HasColumns) : applyAll .gpu rs a = afterAll .gpu rs a := by
  induction hs generalizing a with
  | nil => rfl
  | @cons r s rs snippets hr _ ih =>
    obtain ⟨hop, hcols⟩ := ht r List.mem_cons_self
    obtain ⟨hself, -⟩ := (ofResolved_eq_ok h hop).1 hr
    have hrest := ih (Operation.laidOut_after h hop) fun r' hr' => ht r' (List.mem_cons_of_mem r hr')
    rw [applyAll, List.foldl_cons, Operation.applied_eq_after h hop hself hcols]
    exact hrest

theorem applyAll_iterate_eq_afterAll (h : LaidOut .gpu d a) {snippets : List Snippet}
    (hs : List.Forall₂ (fun r s => Snippet.ofResolved r = .ok s) rs snippets)
    (ht : ∀ r ∈ rs, r.operation.Typed d ∧ r.operation.HasColumns) (n : Nat) :
    (applyAll .gpu rs)^[n] a = (afterAll .gpu rs)^[n] a := by
  induction n generalizing a with
  | zero => rfl
  | succ n ih =>
    have hlaid := laidOut_applyAll h fun r hr => (ht r hr).1
    rw [Function.iterate_succ_apply, Function.iterate_succ_apply, ih hlaid, applyAll_eq_afterAll h hs ht]

end Command

end ArrayEngine
