/-
Numbers up to the sign of zeros, and that the backends never differ in more.

The product of a matrix without columns is +0.0 on the host and -0.0 on a device, and what is computed from it may take
over the difference. `Single.Akin` is a relation that outlives it: the same pattern, two zeros, or two not-a-numbers.
- `mul_akin`, `add_akin` and `dot_akin`: every operation on numbers keeps it;
- `Operation.applied_akin`: so an operation on a device leaves what it leaves on the host, up to this relation, and
  `after_akin`: what is so before an operation is so afterwards;
- `applyAll_akin`: so it is for a list of commands, any number of times over;
- `backends_akin`: so executions on both backends leave arrays that differ in the sign of zeros at most.
-/
import ArrayEngine.Proofs.Backends

namespace ArrayEngine

open Shader (Call Snippet)

/-! ## Numbers -/

namespace Single

/-- the same number up to the sign of a zero; not-a-numbers are all alike -/
def Akin (x y : Single) : Prop := x = y ∨ (x.isNaN = true ∧ y.isNaN = true) ∨ (x.isZero = true ∧ y.isZero = true)

instance (x y : Single) : Decidable (x.Akin y) :=
  inferInstanceAs (Decidable (x = y ∨ (x.isNaN = true ∧ y.isNaN = true) ∨ (x.isZero = true ∧ y.isZero = true)))

variable {x x' y y' z : Single}

theorem Akin.refl (x : Single) : x.Akin x := .inl rfl

theorem Akin.of_nan (hx : x.isNaN = true) (hy : y.isNaN = true) : x.Akin y := .inr (.inl ⟨hx, hy⟩)

theorem Akin.of_zero (hx : x.isZero = true) (hy : y.isZero = true) : x.Akin y := .inr (.inr ⟨hx, hy⟩)

theorem magnitude_of_isZero (h : x.isZero = true) : x.magnitude = 0 := eq_of_beq h

theorem isNaN_of_isZero (h : x.isZero = true) : x.isNaN = false := by
  simp [isNaN, magnitude_of_isZero h]

theorem isInfinite_of_isZero (h : x.isZero = true) : x.isInfinite = false := by
  simp [isInfinite, magnitude_of_isZero h, infinity]

theorem Akin.trans (h : x.Akin y) (h' : y.Akin z) : x.Akin z := by
  rcases h with rfl | ⟨hx, hy⟩ | ⟨hx, hy⟩
  · exact h'
  · rcases h' with rfl | ⟨-, hz⟩ | ⟨hy', -⟩
    · exact .of_nan hx hy
    · exact .of_nan hx hz
    · rw [isNaN_of_isZero hy'] at hy
      cases hy
  · rcases h' with rfl | ⟨hy', -⟩ | ⟨-, hz⟩
    · exact .of_zero hx hy
    · rw [isNaN_of_isZero hy] at hy'
      cases hy'
    · exact .of_zero hx hz

/-- a not-a-number stays one when it is passed on -/
theorem isNaN_quieted (h : x.isNaN = true) : x.quieted.isNaN = true := by
  have hle : x.magnitude ≤ x.quieted.magnitude := by
    have hbits : x.quieted.magnitude = x.magnitude ||| 0x00400000 := by
      simp only [magnitude, quieted, UInt32.toNat_or]
      exact Nat.or_mod_two_pow (n := 31)
    rw [hbits]
    exact Nat.left_le_or
  exact decide_eq_true (lt_of_lt_of_le (of_decide_eq_true h) hle)

/-- an operand that is not a number is passed on -/
theorem passedOn_of_nan (h : x.isNaN = true ∨ y.isNaN = true) : ∃ r, passedOn x y = some r ∧ r.isNaN = true := by
  unfold passedOn
  split_ifs with hx hy
  · exact ⟨_, rfl, isNaN_quieted hx⟩
  · exact ⟨_, rfl, isNaN_quieted hy⟩
  · exact absurd h (by simp [hx, hy])

theorem passedOn_of_numbers (hx : x.isNaN = false) (hy : y.isNaN = false) : passedOn x y = none := by
  simp [passedOn, hx, hy]

theorem isNaN_mul (h : x.isNaN = true ∨ y.isNaN = true) : (x * y).isNaN = true := by
  obtain ⟨r, hr, hnan⟩ := passedOn_of_nan h
  change (mul x y).isNaN = true
  rw [mul, hr]
  exact hnan

theorem isNaN_add (h : x.isNaN = true ∨ y.isNaN = true) : (x + y).isNaN = true := by
  obtain ⟨r, hr, hnan⟩ := passedOn_of_nan h
  change (add x y).isNaN = true
  rw [add, hr]
  exact hnan

theorem isZero_ofMagnitude (negative : Bool) : (ofMagnitude negative 0).isZero = true := by
  cases negative <;> decide

theorem units_of_isZero (h : x.isZero = true) : x.units = 0 := by
  rw [units, magnitude_of_isZero h]
  rfl

theorem value_of_isZero (h : x.isZero = true) : x.value = 0 := by
  simp [value, units_of_isZero h]

/-- a zero times a number is a zero, or `invalid` if the number is infinite -/
theorem mul_of_zero (hx : x.isNaN = false) (hy : y.isNaN = false) (h : x.isZero = true ∨ y.isZero = true) :
    if x.isInfinite || y.isInfinite then x * y = invalid else (x * y).isZero = true := by
  have hunits : x.units * y.units = 0 := by
    rcases h with h | h
    · rw [units_of_isZero h, Nat.zero_mul]
    · rw [units_of_isZero h, Nat.mul_zero]
  have hzero : (x.isZero || y.isZero) = true := by
    rcases h with h | h <;> simp [h]
  change if x.isInfinite || y.isInfinite then mul x y = invalid else (mul x y).isZero = true
  split_ifs with hinf
  · simp only [mul, passedOn_of_numbers hx hy, hinf, hzero, if_true]
  · simp only [mul, passedOn_of_numbers hx hy, hinf, hunits]
    exact isZero_ofMagnitude _

/-- so two such products are alike, if infinite operands stand against infinite ones -/
theorem mul_akin_of_zeros (hx : x.isNaN = false) (hy : y.isNaN = false) (h : x.isZero = true ∨ y.isZero = true)
    (hx' : x'.isNaN = false) (hy' : y'.isNaN = false) (h' : x'.isZero = true ∨ y'.isZero = true)
    (hinf : (x.isInfinite || y.isInfinite) = (x'.isInfinite || y'.isInfinite)) : (x * y).Akin (x' * y') := by
  have hmul := mul_of_zero hx hy h
  have hmul' := mul_of_zero hx' hy' h'
  rw [hinf] at hmul
  split_ifs at hmul hmul'
  · exact .inl (hmul.trans hmul'.symm)
  · exact .of_zero hmul hmul'

theorem mul_akin_left (h : x.Akin x') (y : Single) : (x * y).Akin (x' * y) := by
  rcases h with rfl | ⟨hx, hx'⟩ | ⟨hx, hx'⟩
  · exact .refl _
  · exact .of_nan (isNaN_mul (.inl hx)) (isNaN_mul (.inl hx'))
  · cases hy : y.isNaN with
    | true => exact .of_nan (isNaN_mul (.inr hy)) (isNaN_mul (.inr hy))
    | false =>
      apply mul_akin_of_zeros (isNaN_of_isZero hx) hy (.inl hx) (isNaN_of_isZero hx') hy (.inl hx')
      rw [isInfinite_of_isZero hx, isInfinite_of_isZero hx']

theorem mul_akin_right (x : Single) (h : y.Akin y') : (x * y).Akin (x * y') := by
  rcases h with rfl | ⟨hy, hy'⟩ | ⟨hy, hy'⟩
  · exact .refl _
  · exact .of_nan (isNaN_mul (.inr hy)) (isNaN_mul (.inr hy'))
  · cases hx : x.isNaN with
    | true => exact .of_nan (isNaN_mul (.inl hx)) (isNaN_mul (.inl hx))
    | false =>
      apply mul_akin_of_zeros hx (isNaN_of_isZero hy) (.inr hy) hx (isNaN_of_isZero hy') (.inr hy')
      rw [isInfinite_of_isZero hy, isInfinite_of_isZero hy']

theorem mul_akin (hx : x.Akin x') (hy : y.Akin y') : (x * y).Akin (x' * y') :=
  (mul_akin_left hx y).trans (mul_akin_right x' hy)

/-- the sign that a zero sum takes does not matter -/
theorem ofSum_akin (s : Int) (negative negative' : Bool) : (ofSum s negative).Akin (ofSum s negative') := by
  unfold ofSum
  split_ifs
  · exact .of_zero (isZero_ofMagnitude _) (isZero_ofMagnitude _)
  · exact .refl _

/-- a zero and a number: the number, if it is infinite, and else a sum of its own value -/
theorem zero_add_eq (hx : x.isZero = true) (hy : y.isNaN = false) :
    x + y = if y.isInfinite then y else ofSum y.value (x.negative && y.negative) := by
  change add x y = _
  simp only [add, passedOn_of_numbers (isNaN_of_isZero hx) hy, isInfinite_of_isZero hx, value_of_isZero hx,
    Int.zero_add, Bool.false_eq_true, if_false]

theorem add_zero_eq (hx : x.isNaN = false) (hy : y.isZero = true) :
    x + y = if x.isInfinite then x else ofSum x.value (x.negative && y.negative) := by
  change add x y = _
  simp only [add, passedOn_of_numbers hx (isNaN_of_isZero hy), isInfinite_of_isZero hy, value_of_isZero hy,
    Int.add_zero, Bool.false_and, Bool.false_eq_true, if_false]

theorem add_akin_left (h : x.Akin x') (y : Single) : (x + y).Akin (x' + y) := by
  rcases h with rfl | ⟨hx, hx'⟩ | ⟨hx, hx'⟩
  · exact .refl _
  · exact .of_nan (isNaN_add (.inl hx)) (isNaN_add (.inl hx'))
  · cases hy : y.isNaN with
    | true => exact .of_nan (isNaN_add (.inr hy)) (isNaN_add (.inr hy))
    | false =>
      rw [zero_add_eq hx hy, zero_add_eq hx' hy]
      split_ifs
      · exact .refl _
      · exact ofSum_akin _ _ _

theorem add_akin_right (x : Single) (h : y.Akin y') : (x + y).Akin (x + y') := by
  rcases h with rfl | ⟨hy, hy'⟩ | ⟨hy, hy'⟩
  · exact .refl _
  · exact .of_nan (isNaN_add (.inr hy)) (isNaN_add (.inr hy'))
  · cases hx : x.isNaN with
    | true => exact .of_nan (isNaN_add (.inl hx)) (isNaN_add (.inl hx))
    | false =>
      rw [add_zero_eq hx hy, add_zero_eq hx hy']
      split_ifs
      · exact .refl _
      · exact ofSum_akin _ _ _

theorem add_akin (hx : x.Akin x') (hy : y.Akin y') : (x + y).Akin (x' + y') :=
  (add_akin_left hx y).trans (add_akin_right x' hy)

end Single

/-! ## Lists of numbers -/

section

variable {xs xs' ys ys' : List Single}

theorem map_akin (h : List.Forall₂ Single.Akin xs xs') (factor : Single) :
    List.Forall₂ Single.Akin (xs.map (· * factor)) (xs'.map (· * factor)) :=
  List.rel_map (fun _ _ hx => Single.mul_akin hx (.refl factor)) h

theorem zipWith_akin {f : Single → Single → Single} (hf : ∀ {x x' y y'}, x.Akin x' → y.Akin y' → (f x y).Akin (f x' y'))
    (hx : List.Forall₂ Single.Akin xs xs') (hy : List.Forall₂ Single.Akin ys ys') :
    List.Forall₂ Single.Akin (xs.zipWith f ys) (xs'.zipWith f ys') := by
  induction hx generalizing ys ys' with
  | nil => exact .nil
  | cons hx _ ih =>
    cases hy with
    | nil => exact .nil
    | cons hy hys => exact .cons (hf hx hy) (ih hys)

theorem foldl_akin {acc acc' : Single} (hacc : acc.Akin acc') (h : List.Forall₂ Single.Akin xs xs') :
    (xs.foldl (· + ·) acc).Akin (xs'.foldl (· + ·) acc') := by
  induction h generalizing acc acc' with
  | nil => exact hacc
  | cons hx _ ih => exact ih (Single.add_akin hacc hx)

theorem dot_akin (hx : List.Forall₂ Single.Akin xs xs') (hy : List.Forall₂ Single.Akin ys ys') :
    (Single.dot xs ys).Akin (Single.dot xs' ys') :=
  foldl_akin (.refl Single.negZero) (zipWith_akin Single.mul_akin hx hy)

theorem Kernel.rowsOf_akin (h : List.Forall₂ Single.Akin xs xs') (cols rows : Nat) :
    List.Forall₂ (List.Forall₂ Single.Akin) (rowsOf cols rows xs) (rowsOf cols rows xs') := by
  induction rows generalizing xs xs' with
  | zero => exact .nil
  | succ rows ih => exact .cons (List.forall₂_take cols h) (ih (List.forall₂_drop cols h))

theorem Kernel.products_akin (hx : List.Forall₂ Single.Akin xs xs') (hy : List.Forall₂ Single.Akin ys ys')
    (rows cols : Nat) : List.Forall₂ Single.Akin (products rows cols xs ys) (products rows cols xs' ys') := by
  unfold products
  split_ifs
  · exact List.forall₂_same.2 fun x _ => .refl x
  · exact List.rel_map (fun _ _ hrow => dot_akin hrow hy) (rowsOf_akin hx cols rows)

/-- lists are related if they are so at every position -/
theorem forall₂_iff_getElem? {α β : Type} {R : α → β → Prop} {xs : List α} {ys : List β} :
    List.Forall₂ R xs ys ↔ ∀ i : Nat, Option.Rel R xs[i]? ys[i]? := by
  constructor
  · intro h i
    induction h generalizing i with
    | nil => exact .none
    | cons hx _ ih =>
      cases i with
      | zero => exact .some hx
      | succ i => exact ih i
  · intro h
    induction xs generalizing ys with
    | nil =>
      cases ys with
      | nil => exact .nil
      | cons y ys => cases h 0
    | cons x xs ih =>
      cases ys with
      | nil => cases h 0
      | cons y ys =>
        rcases h 0 with hx | _
        exact .cons hx (ih fun i => h (i + 1))

end

/-! ## Arenas -/

namespace Arena

/-- arenas of one size whose numbers are alike at every position -/
def Akin (a a' : Arena) : Prop := ∀ j : Nat, Option.Rel Single.Akin a.memory[j]? a'.memory[j]?

variable {a a' a'' : Arena}

theorem Akin.refl (a : Arena) : a.Akin a := by
  intro j
  cases a.memory[j]? with
  | none => exact .none
  | some x => exact .some (.refl x)

theorem Akin.trans (h : a.Akin a') (h' : a'.Akin a'') : a.Akin a'' := by
  intro j
  have hj := h j
  have hj' := h' j
  generalize a.memory[j]? = x at hj ⊢
  generalize a'.memory[j]? = y at hj hj'
  cases hj with
  | none => exact hj'
  | some hx =>
    generalize a''.memory[j]? = z at hj' ⊢
    cases hj' with
    | some hy => exact .some (hx.trans hy)

/-- what ranges of alike arenas hold is alike -/
theorem Akin.numbers (h : a.Akin a') (offset len : Nat) :
    List.Forall₂ Single.Akin (a.numbers offset len) (a'.numbers offset len) := by
  apply forall₂_iff_getElem?.2
  intro i
  rw [getElem?_numbers, getElem?_numbers]
  split_ifs
  · rw [← getElem?_memory, ← getElem?_memory]
    exact h (offset + i)
  · exact .none

/-- alike numbers written to alike arenas -/
theorem Akin.put (h : a.Akin a') {xs ys : List Single} (hxs : List.Forall₂ Single.Akin xs ys) {offset : Nat}
    (hroom : offset + xs.length ≤ a.size) (hroom' : offset + ys.length ≤ a'.size) :
    (a.put offset (xs.map Single.bits)).Akin (a'.put offset (ys.map Single.bits)) := by
  intro j
  have hlen := hxs.length_eq
  rw [getElem?_memory, getElem?_memory, Arena.put, Arena.put,
    getElem?_overwrite _ _ _ (by rw [List.length_map]; exact hroom),
    getElem?_overwrite _ _ _ (by rw [List.length_map]; exact hroom'), List.length_map, List.length_map, ← hlen]
  split_ifs
  · have hj := forall₂_iff_getElem?.1 hxs (j - offset)
    simpa [Function.comp_def] using hj
  · rw [← getElem?_memory, ← getElem?_memory]
    exact h j

end Arena

/-! ## Operations -/

namespace Operation

variable {d : Directory} {a a' : Arena} {op : Operation}

/-- operands that are alike give results that are alike -/
theorem results_akin {held held' : Binding → List Single} (op : Operation)
    (h : ∀ x : Binding, List.Forall₂ Single.Akin (held x) (held' x)) :
    List.Forall₂ Single.Akin (op.results held) (op.results held') := by
  cases op with
  | scale dest src factor => exact map_akin (h src) factor
  | product dest matrix vector => exact Kernel.products_akin (h matrix) (h vector) _ _
  | add dest lhs rhs => exact zipWith_akin Single.add_akin (h lhs) (h rhs)

theorem after_akin (h : LaidOut .gpu d a) (h' : LaidOut .gpu d a') (hop : op.Typed d) (hakin : a.Akin a') :
    (op.after .gpu a).Akin (op.after .gpu a') := by
  have hin := (h.stored hop.dest_recorded.2).inside
  have hin' := (h'.stored hop.dest_recorded.2).inside
  have hresults : List.Forall₂ Single.Akin (op.results (Binding.held .gpu a)) (op.results (Binding.held .gpu a')) :=
    results_akin op fun x => hakin.numbers _ _
  apply hakin.put hresults
  · rw [length_results h hop]
    exact hin
  · rw [length_results h' hop]
    exact hin'

/-- an operation whose matrices do not all have columns is the product of a matrix without columns -/
theorem hasColumns_or (hop : op.Typed d) :
    op.HasColumns ∨ ∃ dest matrix vector, op = .product dest matrix vector ∧ matrix.item.cols = 0 := by
  have hvector {x : Binding} {n : Nat} (hx : x.IsVector n) : x.kind = .matrix → 0 < x.item.cols := by
    intro hk
    rw [hx.1] at hk
    cases hk
  obtain ⟨_, hden⟩ := hop
  cases hden with
  | scale _ _ _ hdn hsn =>
    refine .inl fun x hx => ?_
    rcases List.mem_pair.1 hx with rfl | rfl
    · exact hvector hdn
    · exact hvector hsn
  | @product dest matrix vector _ _ _ _ hdn hvn =>
    rcases Nat.eq_zero_or_pos matrix.item.cols with hzero | hpos
    · exact .inr ⟨dest, matrix, vector, rfl, hzero⟩
    · refine .inl fun x hx => ?_
      simp only [bindings, List.mem_cons, List.not_mem_nil, or_false] at hx
      rcases hx with rfl | rfl | rfl
      · exact hvector hdn
      · exact fun _ => hpos
      · exact hvector hvn
  | add _ _ _ hdn hln hrn =>
    refine .inl fun x hx => ?_
    simp only [bindings, List.mem_cons, List.not_mem_nil, or_false] at hx
    rcases hx with rfl | rfl | rfl
    · exact hvector hdn
    · exact hvector hln
    · exact hvector hrn

/-- the values of the call of an operation are alike to its results -/
theorem valueAt_akin (h : LaidOut .gpu d a) (hop : op.Typed d) {k : Nat} (hk : k < op.call.size) :
    ∃ y, (op.results (Binding.held .gpu a))[k]? = some y ∧ (op.call.valueAt k a.memory).Akin y := by
  rcases hasColumns_or hop with hcols | ⟨dest, matrix, vector, rfl, hzero⟩
  · exact ⟨_, results_getElem? h hop hcols hk, .refl _⟩
  · -- the sum of no products is -0.0 on a device, and +0.0 on the host
    have hrow : k < matrix.item.rows := hk
    have hresult : (results (Binding.held .gpu a) (.product dest matrix vector))[k]? = some .zero := by
      rw [results, Kernel.products, if_pos hzero, List.getElem?_replicate, if_pos hrow]
    have hvalue : (call (.product dest matrix vector)).valueAt k a.memory = .negZero := by
      simp only [call, Call.valueAt, hzero, DeviceMemory.dotAt]
    refine ⟨_, hresult, ?_⟩
    rw [hvalue]
    decide

/-- **One operation.** A device does what the host does, up to the sign of zeros. -/
theorem applied_akin (h : LaidOut .gpu d a) (hop : op.Typed d) (hself : op.call.gathers op.call = false) :
    (applied .gpu a op).Akin (op.after .gpu a) := by
  intro j
  rw [applied, Arena.memory_ofMemory, getElem?_sweep_call h hop hself, getElem?_after h hop]
  split_ifs with hj
  · obtain ⟨y, hy, hakin⟩ := valueAt_akin h hop (k := j - op.call.dest) (by omega)
    rw [hy]
    exact .some hakin
  · exact Arena.Akin.refl a j

end Operation

/-! ## Lists of commands -/

namespace Command

variable {d : Directory} {a a' : Arena} {rs : List Resolved} {snippets : List Snippet}

/-- the effects of commands on a device and on the host, on arenas that are alike -/
theorem applyAll_akin (h : LaidOut .gpu d a) (h' : LaidOut .gpu d a') (hakin : a.Akin a')
    (hs : List.Forall₂ (fun r s => Snippet.ofResolved r = .ok s) rs snippets) (ht : ∀ r ∈ rs, r.operation.Typed d) :
    (applyAll .gpu rs a).Akin (afterAll .gpu rs a') := by
  induction hs generalizing a a' with
  | nil => exact hakin
  | @cons r s rs snippets hr _ ih =>
    have hop := ht r List.mem_cons_self
    obtain ⟨hself, -⟩ := (ofResolved_eq_ok h hop).1 hr
    have hstep := (Operation.applied_akin h hop hself).trans (Operation.after_akin h h' hop hakin)
    exact ih (Operation.laidOut_applied h hop) (Operation.laidOut_after h' hop) hstep
      fun r' hr' => ht r' (List.mem_cons_of_mem r hr')

theorem laidOut_afterAll {b : Backend} (h : LaidOut b d a) (ht : ∀ r ∈ rs, r.operation.Typed d) :
    LaidOut b d (afterAll b rs a) := by
  induction rs generalizing a with
  | nil => exact h
  | cons r rs ih =>
    exact ih (Operation.laidOut_after h (ht r List.mem_cons_self)) fun r' hr' => ht r' (List.mem_cons_of_mem r hr')

/-- and so any number of times over -/
theorem applyAll_iterate_akin (h : LaidOut .gpu d a) (h' : LaidOut .gpu d a') (hakin : a.Akin a')
    (hs : List.Forall₂ (fun r s => Snippet.ofResolved r = .ok s) rs snippets) (ht : ∀ r ∈ rs, r.operation.Typed d)
    (n : Nat) : ((applyAll .gpu rs)^[n] a).Akin ((afterAll .gpu rs)^[n] a') := by
  induction n generalizing a a' with
  | zero => exact hakin
  | succ n ih =>
    rw [Function.iterate_succ_apply, Function.iterate_succ_apply]
    exact ih (laidOut_applyAll h ht) (laidOut_afterAll h' ht) (applyAll_akin h h' hakin hs ht)

end Command

/-! ## Buffers -/

/-- arrays of one shape whose elements are alike, each owning its own -/
inductive Tensor.Akin : Tensor → Tensor → Prop
  | owned (shape : Shape) {xs ys : List Single} (h : List.Forall₂ Single.Akin xs ys) :
      Akin ⟨shape, .owned xs⟩ ⟨shape, .owned ys⟩

/-- alike arenas hold alike arrays -/
theorem contents_akin {a a' : Arena} (h : a.Akin a') (b : Backend) (d : Directory) (name : String) :
    Option.Rel Tensor.Akin (d.contents b a name) (d.contents b a' name) := by
  unfold Directory.contents
  cases d.get? name with
  | none => exact .none
  | some item =>
    simp only [Option.bind_some, Item.tensor]
    cases Shape.ofExtents? item.kind item.shape with
    | none => exact .none
    | some shape => exact .some (.owned shape (h.numbers _ _))

namespace Session

/-- the host, on a buffer that holds the same arrays as one of the device, leaves what the commands leave of these -/
theorem contents_execute_cpu {c : Filling .cpu} {g : Filling .gpu} (hc : c.Sound) (hg : g.Sound) (hagree : c.Agrees g)
    {description : Description} {rs : List Resolved}
    (hrs : Command.resolveAll g.buffer.directory description = .ok rs) (n : Nat) :
    ∃ host, Cpu.compile c.buffer.directory description = .ok host ∧
      (Cpu.execute host c.buffer c.store n).result = .ok () ∧
      c.buffer.contents (Cpu.execute host c.buffer c.store n).store =
        g.buffer.directory.contents .gpu ((Command.afterAll .gpu rs)^[n] (g.store.arena g.buffer.arena)) := by
  have hsame : c.buffer.directory.contents .cpu (c.store.arena c.buffer.arena) =
      g.buffer.directory.contents .gpu (g.store.arena g.buffer.arena) := by
    rw [← hc.contents_eq, ← hg.contents_eq, hagree.contents]
  obtain ⟨rs', hrs'⟩ := resolveAll_of_contents hg.laidOut hsame.symm hrs
  have hhost := Cpu.compile_eq_ok.2 ⟨rs', hrs', rfl⟩
  obtain ⟨hexec, -⟩ := Cpu.execute_eq (n := n) hhost (Cpu.verify_self hhost) hc.laidOut
  obtain ⟨hrun, -⟩ := run_of_resolve hg.laidOut (mapM_eq_ok.1 hrs) n
  obtain ⟨hrun', hlaid'⟩ := run_of_resolve hc.laidOut (mapM_eq_ok.1 hrs') n
  rw [hsame, hrun] at hrun'
  have hself := Store.arena_put_self hc.lt_size ((Command.afterAll .cpu rs')^[n] (c.store.arena c.buffer.arena))
  refine ⟨_, hhost, by rw [hexec], ?_⟩
  rw [hexec, Buffer.contents_eq (by rw [hself]; exact hlaid'), hself]
  exact (Option.some.inj hrun').symm

variable {δ : Type} [Device δ] [LawfulDevice δ]

/-- **The backends agree up to the sign of zeros.** Take the arrays in hand after any run, and insert some of them in
some order into a new buffer of each backend. If a description compiles on the device, on any executor, it compiles on
the host, also where it has matrices without columns. Both executions succeed, and afterwards both buffers hold arrays of
the same shapes under exactly the inserted names. Two elements at the same place are the same bit by bit, or two
not-a-numbers, or two zeros. -/
theorem backends_akin (actions : List (Action δ)) (entries : List (String × Nat)) {c : Filling .cpu} {g : Filling .gpu}
    (hc : (run .empty actions).fill .cpu entries = some c) (hg : (run .empty actions).fill .gpu entries = some g)
    {e e' : Gpu.Executor HostDevice} (he : e.Reached) {description : Description} {compiled : Gpu.Computation}
    (hcompile : Gpu.Executor.compile g.buffer.directory description e = .ok compiled e') (n : Nat) :
    ∃ host, Cpu.compile c.buffer.directory description = .ok host ∧
      let cpu := Cpu.execute host c.buffer c.store n
      let gpu := e'.execute compiled g.buffer g.store n
      cpu.result = .ok () ∧ gpu.result = .ok () ∧ ∀ name,
        Option.Rel Tensor.Akin (g.buffer.contents gpu.store name) (c.buffer.contents cpu.store name) ∧
        ((g.buffer.contents gpu.store name).isSome ↔ name ∈ entries.map Prod.fst) := by
  have hwf := (wellFormed_run wellFormed_empty actions).1
  obtain ⟨hcs, hgs, hagree⟩ := Filling.inserts_agree (sound_start hwf .cpu) (sound_start hwf .gpu)
    (start_agrees _ .cpu .gpu) hc hg
  obtain ⟨rs, snippets, hrs, hs, hresult, hstore⟩ :=
    Gpu.Executor.execute_eq_applyAll he.honest hgs.laidOut hcompile (fun _ _ hp => hp) n
  obtain ⟨host, hhost, hok, hcpu⟩ := contents_execute_cpu hcs hgs hagree hrs n
  have htyped := Command.typed_of_resolveAll hrs
  have hlaid := Command.laidOut_applyAll_iterate hgs.laidOut htyped n
  have hgpu : g.buffer.contents (e'.execute compiled g.buffer g.store n).store =
      g.buffer.directory.contents .gpu ((Command.applyAll .gpu rs)^[n] (g.store.arena g.buffer.arena)) := by
    have hself := Store.arena_put_self hgs.lt_size ((Command.applyAll .gpu rs)^[n] (g.store.arena g.buffer.arena))
    rw [hstore, Buffer.contents_eq (by rw [hself]; exact hlaid), hself]
  refine ⟨host, hhost, hok, hresult, fun name => ⟨?_, ?_⟩⟩
  · rw [hgpu, hcpu]
    have hakin := Command.applyAll_iterate_akin hgs.laidOut hgs.laidOut (.refl _) (mapM_eq_ok.1 hs) htyped n
    exact contents_akin hakin _ _ _
  · have hnames := Filling.contents_inserts (sound_start hwf .gpu) hg name
    rw [hgs.contents_eq, contents_isSome hgs.laidOut] at hnames
    rw [hgpu, contents_isSome hlaid, hnames]
    exact or_iff_right Bool.false_ne_true

/-- a matrix without columns, a vector without elements and a vector of two -/
def hollow : List (Action HostDevice) :=
  [.own (.matrix 2 0) [], .own (.vector 0) [], .own (.vector 2) [⟨0x3f800000⟩, ⟨0xff800000⟩]]

/-- the product without columns is scaled by a negative factor and added -/
theorem backends_akin_hollow : ∃ (c : Filling .cpu) (g : Filling .gpu) (e' : Gpu.Executor HostDevice)
    (compiled : Gpu.Computation) (host : Cpu.Computation),
    (run .empty hollow).fill .cpu [("m", 0), ("z", 1), ("v", 2)] = some c ∧
      (run .empty hollow).fill .gpu [("m", 0), ("z", 1), ("v", 2)] = some g ∧
      Gpu.Executor.compile g.buffer.directory ⟨["v = multiply m z", "v = multiply v -2"]⟩ (.create .empty) =
        .ok compiled e' ∧
      Option.Rel Tensor.Akin (g.buffer.contents (e'.execute compiled g.buffer g.store 3).store "v")
        (c.buffer.contents (Cpu.execute host c.buffer c.store 3).store "v") ∧
      (g.buffer.contents (e'.execute compiled g.buffer g.store 3).store "v").isSome := by
  let entries : List (String × Nat) := [("m", 0), ("z", 1), ("v", 2)]
  let description : Description := ⟨["v = multiply m z", "v = multiply v -2"]⟩
  have hcpu : ((run .empty hollow).fill .cpu entries).isSome = true := by decide +kernel
  have hgpu : (((run .empty hollow).fill .gpu entries).bind fun g =>
      (Gpu.plan g.buffer.directory description).toOption).isSome = true := by decide +kernel
  obtain ⟨c, hc⟩ := Option.isSome_iff_exists.1 hcpu
  obtain ⟨⟨layout, gs⟩, hplan⟩ := Option.isSome_iff_exists.1 hgpu
  obtain ⟨g, hg, hplan⟩ := Option.bind_eq_some_iff.1 hplan
  have hstart := sound_start (wellFormed_run wellFormed_empty hollow).1 .gpu
  have hsound := (Filling.inserts_agree hstart hstart ⟨rfl, rfl⟩ hg hg).1
  have he := Gpu.Executor.reached_create .empty
  obtain ⟨steps, e', hcompile, -⟩ := Gpu.Executor.compile_eq_ok he.honest hsound.laidOut (toOption_eq_some.1 hplan)
  obtain ⟨host, -, -, -, hnames⟩ := backends_akin hollow entries hc hg he hcompile 3
  obtain ⟨hakin, hname⟩ := hnames "v"
  exact ⟨c, g, e', _, host, hc, hg, hcompile, hakin, hname.2 (by decide)⟩

end Session

end ArrayEngine
