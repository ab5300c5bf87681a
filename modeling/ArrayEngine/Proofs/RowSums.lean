/-
The product of a matrix and a vector, row by row on the host and element by element on a device.

`Kernel.rowSum` is what a row comes to by index: the products of its elements with those of the vector, added from left
to right to -0.0. Two programs compute it. The host cuts the matrix into whole rows and walks over them and its output
side by side (`Kernel.matvecInto`), as far as both go; an invocation on a device finds each element by its index in the
memory.
- `matvecInto_eq`: the walk over the output ends where the rows end, so it writes what `Kernel.matvec` answers, whatever
  the output held before;
- `dot_row`, `dotAt_row`: the product of a row is its `rowSum` on either side;
- `Operands.invoke_product` and `run_product`: so an invocation sets its element, and a dispatch all of them;
- `matvec_by_index`: the two agree, bit for bit.
-/
import ArrayEngine.Proofs.DeviceMemory

namespace ArrayEngine

theorem bind_congr_ok {ε α β : Type} {x : Except ε α} {f g : α → Except ε β} (h : ∀ a, x = .ok a → f a = g a) :
    (x >>= f) = x >>= g := by
  cases x with
  | error e => rfl
  | ok a => exact h a rfl

/-! ## Sums by index -/

namespace Single

/-- the first `n` terms, added from left to right to -0.0 -/
def sumTo (term : Nat → Single) : Nat → Single
  | 0 => .negZero
  | n + 1 => sumTo term n + term n

theorem sum_map_range (term : Nat → Single) (n : Nat) : sum ((List.range n).map term) = sumTo term n := by
  induction n with
  | zero => rfl
  | succ n ih =>
    rw [sum] at ih ⊢
    rw [List.range_succ, List.map_append, List.foldl_append, ih]
    rfl

theorem sumTo_congr {term term' : Nat → Single} {n : Nat} (h : ∀ i < n, term i = term' i) :
    sumTo term n = sumTo term' n := by
  induction n with
  | zero => rfl
  | succ n ih => rw [sumTo, sumTo, ih fun i hi => h i (Nat.lt_succ_of_lt hi), h n (Nat.lt_succ_self n)]

/-- an element of a list, as far as it reaches -/
def entry (xs : List Single) (i : Nat) : Single := xs[i]?.getD .zero

theorem dot_eq_sumTo {xs ys : List Single} (h : xs.length = ys.length) :
    dot xs ys = sumTo (fun c => entry xs c * entry ys c) xs.length := by
  have hterms : xs.zipWith (· * ·) ys = (List.range xs.length).map fun c => entry xs c * entry ys c := by
    apply List.ext_getElem
    · simp [h]
    · intro c hc hc'
      have hx : c < xs.length := by simpa using hc'
      have hy : c < ys.length := h ▸ hx
      simp [entry, hx, hy]
  rw [dot, hterms, sum_map_range]

end Single

namespace Kernel

open Single (entry sumTo)

/-- the products of row `r` of a matrix with `cols` columns and a vector, added from left to right to -0.0 -/
def rowSum (matrix vector : List Single) (cols r : Nat) : Single :=
  sumTo (fun c => entry matrix (r * cols + c) * entry vector c) cols

/-- a row ends where the matrix does, or before -/
theorem row_le {rows r : Nat} (cols : Nat) (hr : r < rows) : r * cols + cols ≤ rows * cols := by
  rw [← Nat.succ_mul]
  exact Nat.mul_le_mul_right cols hr

theorem length_row {matrix : List Single} {cols r : Nat} (hrow : r * cols + cols ≤ matrix.length) :
    ((matrix.drop (r * cols)).take cols).length = cols := by
  rw [List.length_take, List.length_drop]
  omega

/-- an element of a row stands `cols` elements behind the same element of the row above -/
theorem dot_row {matrix vector : List Single} {cols r : Nat} (hrow : r * cols + cols ≤ matrix.length)
    (hv : vector.length = cols) :
    Single.dot ((matrix.drop (r * cols)).take cols) vector = rowSum matrix vector cols r := by
  have hlen := length_row hrow
  rw [Single.dot_eq_sumTo (hlen.trans hv.symm), hlen, rowSum]
  apply Single.sumTo_congr
  intro c hc
  rw [entry, entry, entry, List.getElem?_take_of_lt hc, List.getElem?_drop]

/-! ## The walk over the output -/

/-- the whole runs of `n` elements of a list; what is left at its end is not one -/
def wholeRuns (n : Nat) (xs : List Single) : List (List Single) :=
  if 0 < n ∧ n ≤ xs.length then xs.take n :: wholeRuns n (xs.drop n) else []
  termination_by xs.length
  decreasing_by rw [List.length_drop]; omega

/-- an output with the products of rows and a vector written over its elements, as far as both output and rows go -/
def writeRows (vector : List Single) : List Single → List (List Single) → Except Fault (List Single)
  | _ :: out, row :: rows => do
    let product ← dot row vector
    return product :: (← writeRows vector out rows)
  | out, _ => .ok out

/-- an output with the product of a matrix and a vector written over it -/
def matvecInto (matrix : List Single) (rows cols : Nat) (vector out : List Single) : Except Fault (List Single) := do
  agree matrix.length (← Size.mul rows cols)
  agree vector.length cols
  agree out.length rows
  if cols = 0 then return out.map fun _ => .zero
  else writeRows vector out (wholeRuns cols matrix)

variable {matrix vector out : List Single} {rows cols : Nat}

/-- behind the first row there is one row less -/
theorem length_drop_row (hm : matrix.length = (rows + 1) * cols) : (matrix.drop cols).length = rows * cols := by
  rw [List.length_drop, hm, Nat.succ_mul, Nat.add_sub_cancel]

theorem wholeRuns_eq (hcols : 0 < cols) (hm : matrix.length = rows * cols) :
    wholeRuns cols matrix = rowsOf cols rows matrix := by
  induction rows generalizing matrix with
  | zero =>
    have hshort : ¬(0 < cols ∧ cols ≤ matrix.length) := by omega
    rw [wholeRuns, if_neg hshort]
    rfl
  | succ rows ih =>
    have hrest := length_drop_row hm
    rw [Nat.succ_mul] at hm
    have hwhole : 0 < cols ∧ cols ≤ matrix.length := by omega
    rw [wholeRuns, if_pos hwhole, ih hrest, rowsOf]

theorem length_of_mem_rowsOf (hm : matrix.length = rows * cols) :
    ∀ row ∈ rowsOf cols rows matrix, row.length = cols := by
  induction rows generalizing matrix with
  | zero => simp [rowsOf]
  | succ rows ih =>
    have hrest := length_drop_row hm
    rw [Nat.succ_mul] at hm
    have hfirst : (matrix.take cols).length = cols := by
      rw [List.length_take]
      omega
    rw [rowsOf, List.forall_mem_cons]
    exact ⟨hfirst, ih hrest⟩

/-- with a row for every element, every element is written -/
theorem writeRows_eq {runs : List (List Single)} (hout : out.length = runs.length)
    (hruns : ∀ row ∈ runs, row.length = vector.length) :
    writeRows vector out runs = .ok (runs.map (Single.dot · vector)) := by
  induction runs generalizing out with
  | nil =>
    rw [List.length_eq_zero_iff.1 hout]
    rfl
  | cons row runs ih =>
    obtain ⟨x, out, rfl⟩ := List.exists_cons_of_length_eq_add_one hout
    rw [List.forall_mem_cons] at hruns
    have hdot : dot row vector = .ok (Single.dot row vector) := by
      rw [dot, agree, if_pos hruns.1]
      rfl
    rw [writeRows, hdot, ok_bind, ih (Nat.succ.inj hout) hruns.2]
    rfl

/-- **The walk.** What is written over an output is the product, and does not depend on what was there. -/
theorem matvecInto_eq (matrix : List Single) (rows cols : Nat) (vector out : List Single) :
    matvecInto matrix rows cols vector out = matvec matrix rows cols vector out.length := by
  unfold matvecInto matvec
  refine bind_congr_ok fun size hsize => bind_congr_ok fun _ hm => bind_congr_ok fun _ hv =>
    bind_congr_ok fun _ hout => ?_
  rw [agree_eq_ok] at hm hv hout
  obtain ⟨-, rfl⟩ := Size.mul_eq_ok.1 hsize
  split_ifs with hcols
  · rw [List.map_const', hout]
  · have hlen : out.length = (rowsOf cols rows matrix).length := by rw [length_rowsOf, hout]
    have hruns : ∀ row ∈ rowsOf cols rows matrix, row.length = vector.length := fun row hrow =>
      (length_of_mem_rowsOf hm row hrow).trans hv.symm
    rw [wholeRuns_eq (Nat.pos_of_ne_zero hcols) hm, writeRows_eq hlen hruns]
    rfl

/-- with a column, the product holds the sum of every row -/
theorem getElem?_products (hcols : 0 < cols) (hm : matrix.length = rows * cols) (hv : vector.length = cols) {r : Nat}
    (hr : r < rows) : (products rows cols matrix vector)[r]? = some (rowSum matrix vector cols r) := by
  have hrow : r * cols + cols ≤ matrix.length := hm ▸ row_le cols hr
  rw [products, if_neg (Nat.ne_of_gt hcols), List.getElem?_map, getElem?_rowsOf _ _ _ hr, Option.map_some,
    dot_row hrow hv]

end Kernel

/-! ## The memory of a device -/

namespace DeviceMemory

open Kernel (rowSum)
open Shader (Call)

/-- the elements of a memory from `offset` on are those of a list -/
structure Holds (m : DeviceMemory) (offset : Nat) (xs : List Single) : Prop where
  inside : offset + xs.length ≤ m.size
  elements : ∀ k < xs.length, m[offset + k]? = xs[k]?

variable {m : DeviceMemory} {matrix vector : List Single} {dest mo vo rows cols r : Nat}

theorem Holds.getElem?_eq {offset : Nat} {xs : List Single} (h : m.Holds offset xs) {k : Nat} (hk : k < xs.length) :
    xs[k]? = some (m.elementAt (offset + k)) := by
  rw [elementAt, h.elements k hk, List.getElem?_eq_getElem hk]
  rfl

/-- an invocation adds the products of its row in the same order -/
theorem dotAt_row (hmatrix : m.Holds mo matrix) (hvector : m.Holds vo vector) (hm : matrix.length = rows * cols)
    (hv : vector.length = cols) (hr : r < rows) :
    m.dotAt (mo + r * cols) vo cols .negZero = rowSum matrix vector cols r := by
  have hrow : r * cols + cols ≤ matrix.length := hm ▸ Kernel.row_le cols hr
  have hlen := Kernel.length_row hrow
  have hdot := dotAt_eq (m := m) (i := mo + r * cols) (j := vo) (hlen.trans hv.symm) (fun k hk => ?_)
    (fun k hk => hvector.getElem?_eq hk) .negZero
  · rw [hlen] at hdot
    exact hdot.trans (Kernel.dot_row hrow hv)
  · rw [hlen] at hk
    rw [List.getElem?_take_of_lt hk, List.getElem?_drop, Nat.add_assoc]
    exact hmatrix.getElem?_eq (by omega)

/-- a matrix and a vector lie in a memory, and a room of `rows` elements apart from both -/
structure Operands (m : DeviceMemory) (matrix vector : List Single) (rows dest mo vo : Nat) : Prop where
  holds_matrix : m.Holds mo matrix
  holds_vector : m.Holds vo vector
  room : dest + rows ≤ m.size
  apart_matrix : dest + rows ≤ mo ∨ mo + matrix.length ≤ dest
  apart_vector : dest + rows ≤ vo ∨ vo + vector.length ≤ dest

namespace Operands

variable (hm : matrix.length = rows * cols) (hv : vector.length = cols)

include hm hv

theorem fits (h : m.Operands matrix vector rows dest mo vo) :
    (Call.product dest mo vo rows cols).Fits m.size := by
  have hmatrix := h.holds_matrix.inside
  have hvector := h.holds_vector.inside
  rw [hm] at hmatrix
  rw [hv] at hvector
  exact ⟨h.room, hmatrix, hvector⟩

theorem valueAt_eq (h : m.Operands matrix vector rows dest mo vo) (hr : r < rows) :
    (Call.product dest mo vo rows cols).valueAt r m = rowSum matrix vector cols r :=
  dotAt_row h.holds_matrix h.holds_vector hm hv hr

/-- **One invocation.** It sets the element of its row to the sum of the row, and no other element. -/
theorem invoke_product (h : m.Operands matrix vector rows dest mo vo) (hr : r < rows) : ∃ m',
    m.invoke r (.product dest mo vo rows cols) = .ok m' ∧ m'[dest + r]? = some (rowSum matrix vector cols r) ∧
      ∀ j ≠ dest + r, m'[j]? = m[j]? := by
  have hlt : dest + r < m.size := (Nat.add_lt_add_left hr dest).trans_le h.room
  refine ⟨_, Call.invoke_eq (fits hm hv h) r, ?_, ?_⟩
  · rw [Call.effect_of_lt hr, valueAt_eq hm hv h hr]
    exact Array.getElem?_setIfInBounds_self_of_lt hlt
  · intro j hj
    rw [Call.effect_of_lt hr]
    exact Array.getElem?_setIfInBounds_ne (Ne.symm hj)

/-- no invocation reads what another one writes -/
theorem not_reads (h : m.Operands matrix vector rows dest mo vo) {r r' : Nat} (hr : r < rows) (hr' : r' < rows) :
    ¬(Call.product dest mo vo rows cols).Reads r (dest + r') := by
  rintro ⟨k, hk, hread⟩
  have hmatrix := h.apart_matrix
  have hvector := h.apart_vector
  have hentry : r * cols + k < rows * cols := by
    calc r * cols + k < r * cols + cols := Nat.add_lt_add_left hk _
      _ ≤ rows * cols := Kernel.row_le cols hr
  rw [hm] at hmatrix
  rw [hv] at hvector
  omega

/-- **All invocations.** After `n` of them the elements of the first `n` rows hold the sums of their rows. -/
theorem run_product (h : m.Operands matrix vector rows dest mo vo) (n : Nat) : ∃ m',
    m.run [.product dest mo vo rows cols] n = .ok m' ∧ ∀ j, m'[j]? =
      if dest ≤ j ∧ j < dest + min n rows then some (rowSum matrix vector cols (j - dest)) else m[j]? := by
  have hfits : ∀ c ∈ [Call.product dest mo vo rows cols], c.Fits m.size := by simpa using fits hm hv h
  have hsweep : m.sweep [.product dest mo vo rows cols] n = m.sweep [.product dest mo vo rows cols] (min n rows) := by
    rcases Nat.le_total n rows with hle | hle
    · rw [Nat.min_eq_left hle]
    · obtain ⟨k, rfl⟩ := Nat.exists_eq_add_of_le hle
      rw [Nat.min_eq_right hle]
      exact sweep_surplus (by simp [Call.size]) k m
  refine ⟨_, run_eq hfits n, fun j => ?_⟩
  rw [hsweep, getElem?_sweep (fun gid hg gid' hg' _ => not_reads hm hv h hg hg') h.room (Nat.min_le_right n rows)]
  change (if dest ≤ j ∧ j < dest + min n rows then _ else _) = _
  split_ifs with hj
  · have hrow : j - dest < rows := by omega
    exact congrArg some (valueAt_eq hm hv h hrow)
  · rfl

end Operands

end DeviceMemory

/-! ## Both sides -/

namespace Kernel

/-- **The product by index.** A matrix with a column, a vector and an output that fit together: what is written over the
output, whatever it held, is the sum of each row by index. On a device, wherever the operands lie in a memory apart from
the room for the result, the invocation of a row sets its element to that very number and no other element, also after
the invocations of other rows; and a dispatch leaves the numbers of the output. -/
theorem matvec_by_index {rows cols : Nat} {matrix vector out : List Single} (hcols : 1 ≤ cols)
    (hsize : rows * cols < Size.bound) (hm : matrix.length = rows * cols) (hv : vector.length = cols)
    (hout : out.length = rows) : ∃ ys,
      matvecInto matrix rows cols vector out = .ok ys ∧ matvec matrix rows cols vector out.length = .ok ys ∧
      ys.length = rows ∧ (∀ r < rows, ys[r]? = some (rowSum matrix vector cols r)) ∧
      ∀ (m : DeviceMemory) (dest mo vo : Nat), m.Operands matrix vector rows dest mo vo →
        (∀ r < rows, ∃ m', m.invoke r (.product dest mo vo rows cols) = .ok m' ∧ m'[dest + r]? = ys[r]? ∧
          ∀ j ≠ dest + r, m'[j]? = m[j]?) ∧
        ∀ n, ∃ m', m.run [.product dest mo vo rows cols] n = .ok m' ∧
          ∀ j, m'[j]? = if dest ≤ j ∧ j < dest + min n rows then ys[j - dest]? else m[j]? := by
  have hproducts : matvec matrix rows cols vector out.length = .ok (products rows cols matrix vector) :=
    matvec_eq_ok.2 ⟨⟨hsize, hm, hv, hout⟩, rfl⟩
  have hrows : ∀ r < rows, (products rows cols matrix vector)[r]? = some (rowSum matrix vector cols r) :=
    fun r hr => getElem?_products hcols hm hv hr
  refine ⟨_, (matvecInto_eq _ _ _ _ _).trans hproducts, hproducts, length_products _ _ _ _, hrows, ?_⟩
  intro m dest mo vo h
  refine ⟨fun r hr => ?_, fun n => ?_⟩
  · obtain ⟨m', hrun, hset, hother⟩ := DeviceMemory.Operands.invoke_product hm hv h hr
    exact ⟨m', hrun, hset.trans (hrows r hr).symm, hother⟩
  · obtain ⟨m', hrun, hafter⟩ := DeviceMemory.Operands.run_product hm hv h n
    refine ⟨m', hrun, fun j => ?_⟩
    rw [hafter]
    split_ifs with hj
    · exact (hrows (j - dest) (by omega)).symm
    · rfl

/-- the rows 1 2 and 3 4 with the vector 1 1, over an output that holds a not-a-number and an infinity, and in a memory
behind room for the result -/
theorem matvec_by_index_square :
    let matrix : List Single := [⟨0x3f800000⟩, ⟨0x40000000⟩, ⟨0x40400000⟩, ⟨0x40800000⟩]
    let vector : List Single := [⟨0x3f800000⟩, ⟨0x3f800000⟩]
    let memory : DeviceMemory := (.zero :: .zero :: (matrix ++ vector)).toArray
    matvecInto matrix 2 2 vector [.invalid, ⟨0x7f800000⟩] = .ok [⟨0x40400000⟩, ⟨0x40e00000⟩] ∧
      ∃ m', memory.run [.product 0 2 6 2 2] 3 = .ok m' ∧ m'[0]? = some ⟨0x40400000⟩ ∧ m'[1]? = some ⟨0x40e00000⟩ := by
  intro matrix vector memory
  have hmatvec : matvec matrix 2 2 vector 2 = .ok [⟨0x40400000⟩, ⟨0x40e00000⟩] := by decide +kernel
  have hoperands : memory.Operands matrix vector 2 0 2 6 :=
    ⟨⟨by decide, by decide⟩, ⟨by decide, by decide⟩, by decide, by decide, by decide⟩
  have hm : matrix.length = 2 * 2 := rfl
  have hv : vector.length = 2 := rfl
  have hout : [Single.invalid, ⟨0x7f800000⟩].length = 2 := rfl
  obtain ⟨ys, hinto, hys, -, -, hdevice⟩ := matvec_by_index (by decide) (by decide) hm hv hout
  cases hmatvec.symm.trans hys
  obtain ⟨m', hrun, hafter⟩ := (hdevice memory 0 2 6 hoperands).2 3
  exact ⟨hinto, m', hrun, hafter 0, hafter 1⟩

end Kernel

end ArrayEngine
