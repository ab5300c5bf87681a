/-
What operations do to the numbers of a buffer, and that the steps of the host executor do just that.

`Operation.results` is what an operation comes to, by the elements that its operands hold; `Operation.after` is the
arena with these numbers in place of the elements of the destination. Both are said for either backend: only the words
differ where the elements stand.
- `elements_after_dest`, `elements_after_of_ne`: the destination holds the results, and every other item what it held;
- `laidOut_after`: the layout is kept;
- `Cpu.apply_eq`: a step of the host executor, which finds its operands through their headers, succeeds and has exactly
  this effect;
- `Cpu.execute_eq`: so an execution on a buffer whose layout matches succeeds and repeats these effects in order.
-/
import ArrayEngine.Executor.Cpu
import ArrayEngine.Proofs.Insert
import ArrayEngine.Proofs.Resolve

namespace ArrayEngine

/-! ## Operations on numbers -/

namespace Kernel

theorem agree_eq_ok {m n : Nat} {u : Unit} : agree m n = .ok u ↔ m = n := by
  unfold agree
  split_ifs with h <;> simp [h]

theorem length_rowsOf (cols rows : Nat) (data : List Single) : (rowsOf cols rows data).length = rows := by
  induction rows generalizing data with
  | zero => rfl
  | succ rows ih => rw [rowsOf, List.length_cons, ih]

/-- the products of the rows of a matrix with a vector; +0.0 for every row without columns -/
def products (rows cols : Nat) (matrix vector : List Single) : List Single :=
  if cols = 0 then List.replicate rows .zero else (rowsOf cols rows matrix).map (Single.dot · vector)

theorem length_products (rows cols : Nat) (matrix vector : List Single) :
    (products rows cols matrix vector).length = rows := by
  unfold products
  split_ifs
  · exact List.length_replicate
  · rw [List.length_map, length_rowsOf]

theorem scale_eq_ok {src out : List Single} {factor : Single} {room : Nat} :
    scale src factor room = .ok out ↔ src.length = room ∧ src.map (· * factor) = out := by
  simp only [scale, bind_eq_ok, agree_eq_ok, exists_const, pure_eq_ok]

theorem add_eq_ok {lhs rhs out : List Single} {room : Nat} :
    add lhs rhs room = .ok out ↔ (lhs.length = rhs.length ∧ lhs.length = room) ∧ lhs.zipWith (· + ·) rhs = out := by
  simp only [add, bind_eq_ok, agree_eq_ok, exists_const, pure_eq_ok, and_assoc]

theorem matvec_eq_ok {matrix vector out : List Single} {rows cols room : Nat} :
    matvec matrix rows cols vector room = .ok out ↔
      (rows * cols < Size.bound ∧ matrix.length = rows * cols ∧ vector.length = cols ∧ room = rows) ∧
        products rows cols matrix vector = out := by
  simp only [matvec, bind_eq_ok, agree_eq_ok, exists_const, Size.mul_eq_ok, products]
  refine ⟨?_, ?_⟩
  · intro ⟨_, ⟨hb, rfl⟩, hm, hv, hr, h⟩
    refine ⟨⟨hb, hm, hv, hr⟩, ?_⟩
    split_ifs at h ⊢ <;> exact pure_eq_ok.1 h
  · intro ⟨⟨hb, hm, hv, hr⟩, h⟩
    refine ⟨_, ⟨hb, rfl⟩, hm, hv, hr, ?_⟩
    split_ifs at h ⊢ <;> exact pure_eq_ok.2 h

end Kernel

namespace Binding

/-- the elements of a binding as they stand in an arena -/
def held (b : Backend) (a : Arena) (x : Binding) : List Single := x.item.elements b a

variable {b : Backend} {d : Directory} {a : Arena} {x : Binding} {n : Nat}

theorem IsVector.count (h : x.IsVector n) : x.item.count = n := (Size.product_eq_ok h.2).symm

theorem length_held (h : LaidOut b d a) (hx : x.Recorded d) : (x.held b a).length = x.item.count :=
  (h.stored hx.2).length_elements

end Binding

namespace Operation

/-- an operation that some tokens denote -/
def Typed (d : Directory) (op : Operation) : Prop := ∃ tokens, Command.Denotes d tokens op

/-- what an operation comes to, by the elements that its operands hold -/
def results (held : Binding → List Single) : Operation → List Single
  | scale _ src factor => (held src).map (· * factor)
  | product _ matrix vector => Kernel.products matrix.item.rows matrix.item.cols (held matrix) (held vector)
  | add _ lhs rhs => (held lhs).zipWith (· + ·) (held rhs)

/-- the arena with the results of an operation in its destination -/
def after (b : Backend) (a : Arena) (op : Operation) : Arena :=
  a.put (op.dest.item.bodyWord b) ((op.results (Binding.held b a)).map Single.bits)

variable {b : Backend} {d : Directory} {a : Arena} {op : Operation}

theorem Typed.recorded (h : op.Typed d) {x : Binding} (hx : x ∈ op.bindings) : x.Recorded d := by
  obtain ⟨_, h⟩ := h
  exact h.recorded hx

theorem dest_mem_bindings (op : Operation) : op.dest ∈ op.bindings := by
  cases op <;> exact List.mem_cons_self

theorem Typed.dest_recorded (h : op.Typed d) : op.dest.Recorded d := h.recorded op.dest_mem_bindings

theorem Typed.dest_isVector (h : op.Typed d) : op.dest.IsVector op.dest.item.count := by
  obtain ⟨_, h⟩ := h
  cases h with
  | scale _ _ _ hdn _ => exact hdn.count ▸ hdn
  | product _ _ _ _ hdn _ => exact hdn.count ▸ hdn
  | add _ _ _ hdn _ _ => exact hdn.count ▸ hdn

/-- the results are as many as the destination has elements -/
theorem length_results (h : LaidOut b d a) (hop : op.Typed d) :
    (op.results (Binding.held b a)).length = op.dest.item.count := by
  obtain ⟨_, hop⟩ := hop
  cases hop with
  | scale _ hsrc _ hdn hsn => rw [results, List.length_map, Binding.length_held h hsrc, hsn.count]; exact hdn.count.symm
  | product _ _ _ _ hdn _ => rw [results, Kernel.length_products]; exact hdn.count.symm
  | add _ hlhs hrhs hdn hln hrn =>
    rw [results, List.length_zipWith, Binding.length_held h hlhs, Binding.length_held h hrhs, hln.count, hrn.count,
      Nat.min_self]
    exact hdn.count.symm

theorem laidOut_after (h : LaidOut b d a) (hop : op.Typed d) : LaidOut b d (op.after b a) :=
  h.put hop.dest_recorded.2 (by rw [List.length_map, length_results h hop])

theorem elements_after_dest (h : LaidOut b d a) (hop : op.Typed d) :
    op.dest.held b (op.after b a) = op.results (Binding.held b a) :=
  h.elements_put hop.dest_recorded.2 (length_results h hop)

theorem elements_after_of_ne (h : LaidOut b d a) (hop : op.Typed d) {name : String} {item : Item}
    (hne : name ≠ op.dest.name) (hi : d.get? name = some item) : item.elements b (op.after b a) = item.elements b a :=
  h.elements_put_of_ne hop.dest_recorded.2 (by rw [List.length_map, length_results h hop]) hne hi

end Operation

/-! ## Steps on the host -/

namespace Cpu

variable {d : Directory} {a : Arena} {x : Binding} {op : Operation}

theorem locate_eq (h : LaidOut .cpu d a) (hx : x.Recorded d) :
    Region.locate a x.kind x.offset = .ok ⟨x.item.bodyWord .cpu, x.item.shape⟩ := by
  have hhead := (h.stored hx.2).headed rfl
  simp only [Region.locate, Binding.kind, Binding.offset, hhead, ok_bind]
  rfl

theorem read_eq (h : LaidOut .cpu d a) (hx : x.Recorded d) :
    (Region.mk (x.item.bodyWord .cpu) x.item.shape).read a = .ok (x.held .cpu a) := by
  have hs := h.stored hx.2
  have hlen : (Region.mk (x.item.bodyWord .cpu) x.item.shape).length = .ok x.item.count := hs.counted
  rw [Region.read, hlen, ok_bind]
  exact Arena.floats_eq_ok.2 ⟨⟨h.endWord_lt hx.2, hs.inside⟩, rfl⟩

theorem writeFloats_eq (h : LaidOut .cpu d a) (hx : x.Recorded d) (hk : x.kind = .vector) {xs : List Single}
    (hlen : xs.length = x.item.count) :
    a.writeFloats (destWord x) xs = .ok (a.put (x.item.bodyWord .cpu) (xs.map Single.bits)) := by
  have hword : destWord x = x.item.bodyWord .cpu := by
    rw [destWord, ← hk]
    rfl
  rw [Arena.writeFloats, hword]
  refine Arena.write_eq_ok.2 ⟨?_, rfl⟩
  rw [List.length_map, hlen]
  exact ⟨h.endWord_lt hx.2, (h.stored hx.2).inside⟩

/-- a step on the host succeeds, with the effect of its operation -/
theorem apply_eq (h : LaidOut .cpu d a) (hop : op.Typed d) : apply op a = .ok (op.after .cpu a) := by
  have hlen := Operation.length_results h hop
  obtain ⟨_, hop⟩ := hop
  cases hop with
  | @scale dest src _ factor n hdest hsrc _ hdn hsn =>
    have hloc := locate_eq h hsrc
    rw [hsn.1] at hloc
    have hcount : (Region.mk (src.item.bodyWord .cpu) src.item.shape).length = .ok src.item.count :=
      (h.stored hsrc.2).counted
    have hscale : Kernel.scale (src.held .cpu a) factor src.item.count = .ok ((src.held .cpu a).map (· * factor)) :=
      Kernel.scale_eq_ok.2 ⟨Binding.length_held h hsrc, rfl⟩
    simp only [apply, hloc, ok_bind, read_eq h hsrc, hcount, hscale]
    exact writeFloats_eq h hdest hdn.1 hlen
  | @product dest matrix vector hdest hmatrix hvector hmk hdn hvn =>
    have hml := locate_eq h hmatrix
    have hvl := locate_eq h hvector
    rw [hmk] at hml
    rw [hvn.1] at hvl
    have hshape := (h.stored hmatrix.2).matrix_shape hmk
    have hcounted := (h.stored hmatrix.2).counted
    obtain ⟨hbound, hcount⟩ : matrix.item.rows * matrix.item.cols < Size.bound ∧
        matrix.item.rows * matrix.item.cols = matrix.item.count := by
      rw [Item.elementCount, hshape] at hcounted
      exact Size.mul_eq_ok.1 (Size.product_pair_eq_ok hcounted)
    have hcols : matrix.item.shape.getLastD 0 = matrix.item.cols := by rw [hshape]; rfl
    have hrange : a.checkRange (destWord dest) matrix.item.rows = .ok () := by
      have hw := writeFloats_eq h hdest hdn.1 hlen
      have hr := (Arena.write_eq_ok.1 hw).1
      rw [List.length_map, hlen, Operation.dest, hdn.count] at hr
      exact Arena.checkRange_eq_ok.2 hr
    have hmul :
        Kernel.matvec (matrix.held .cpu a) matrix.item.rows matrix.item.cols (vector.held .cpu a) matrix.item.rows =
        .ok (Kernel.products matrix.item.rows matrix.item.cols (matrix.held .cpu a) (vector.held .cpu a)) := by
      refine Kernel.matvec_eq_ok.2 ⟨⟨hbound, ?_, ?_, rfl⟩, rfl⟩
      · rw [Binding.length_held h hmatrix, hcount]
      · rw [Binding.length_held h hvector, hvn.count]
    change a.checkRange (destWord dest) (matrix.item.shape.headD 0) = _ at hrange
    simp only [apply, hml, hvl, ok_bind, hrange, read_eq h hmatrix, read_eq h hvector, hcols]
    change (Kernel.matvec _ matrix.item.rows _ _ matrix.item.rows >>= _) = _
    rw [hmul, ok_bind]
    exact writeFloats_eq h hdest hdn.1 hlen
  | @add dest lhs rhs n hdest hlhs hrhs hdn hln hrn =>
    have hll := locate_eq h hlhs
    have hrl := locate_eq h hrhs
    rw [hln.1] at hll
    rw [hrn.1] at hrl
    have hcount : (Region.mk (lhs.item.bodyWord .cpu) lhs.item.shape).length = .ok lhs.item.count :=
      (h.stored hlhs.2).counted
    have hadd : Kernel.add (lhs.held .cpu a) (rhs.held .cpu a) lhs.item.count =
        .ok ((lhs.held .cpu a).zipWith (· + ·) (rhs.held .cpu a)) := by
      refine Kernel.add_eq_ok.2 ⟨?_, rfl⟩
      rw [Binding.length_held h hlhs, Binding.length_held h hrhs, hln.count, hrn.count]
      exact ⟨rfl, rfl⟩
    simp only [apply, hll, hrl, ok_bind, read_eq h hlhs, read_eq h hrhs, hcount, hadd]
    exact writeFloats_eq h hdest hdn.1 hlen

end Cpu

/-! ## Executions on the host -/

theorem Command.typed_of_resolve {d : Directory} {command : String} {r : Resolved} (h : resolve d command = .ok r) :
    r.operation.Typed d := by
  obtain ⟨-, tokens, -, ht⟩ := resolve_eq_ok.1 h
  exact ⟨tokens, ht⟩

theorem Command.typed_of_resolveAll {d : Directory} {description : Description} {rs : List Resolved}
    (h : resolveAll d description = .ok rs) : ∀ r ∈ rs, r.operation.Typed d := by
  intro r hr
  obtain ⟨command, -, hc⟩ := exists_of_mem_mapM h hr
  exact typed_of_resolve hc

theorem Command.items_of_resolveAll {d : Directory} {description : Description} {rs : List Resolved}
    (h : resolveAll d description = .ok rs) : ∀ r ∈ rs, ∀ x ∈ r.operation.bindings, d.get? x.name = some x.item :=
  fun r hr _ hx => ((typed_of_resolveAll h r hr).recorded hx).2

/-- the layout that commands are resolved with is the one they are resolved against -/
theorem Command.verify_resolved {d : Directory} {description : Description} {rs : List Resolved}
    (hrs : resolveAll d description = .ok rs) : (Signature.ofCommands rs).verify d = .ok () :=
  (Signature.verify_ofCommands (items_of_resolveAll hrs)).2 (items_of_resolveAll hrs)

/-- a directory that the signature accepts resolves the same texts to the same commands -/
theorem Command.resolveAll_of_verify {d d' : Directory} {description : Description} {rs : List Resolved}
    (hrs : resolveAll d description = .ok rs) {u : Unit} (hv : (Signature.ofCommands rs).verify d' = .ok u) :
    resolveAll d' description = .ok rs := by
  have hitems := (Signature.verify_ofCommands (items_of_resolveAll hrs)).1 hv
  rw [resolveAll, mapM_eq_ok] at hrs ⊢
  clear hv
  generalize description.steps = commands at hrs ⊢
  induction hrs with
  | nil => exact .nil
  | @cons command r commands rs hr _ ih =>
    obtain ⟨htext, tokens, htokens, hden⟩ := resolve_eq_ok.1 hr
    have hden' := hden.of_items (hitems r List.mem_cons_self)
    have hrest := ih fun r' hr' => hitems r' (List.mem_cons_of_mem r hr')
    exact .cons (resolve_eq_ok.2 ⟨htext, tokens, htokens, hden'⟩) hrest

/-- the arena after a list of commands -/
def Command.afterAll (b : Backend) (rs : List Resolved) (a : Arena) : Arena :=
  rs.foldl (fun a r => r.operation.after b a) a

namespace Cpu

theorem compile_eq_ok {d : Directory} {description : Description} {c : Computation} :
    compile d description = .ok c ↔ ∃ rs, Command.resolveAll d description = .ok rs ∧ ⟨rs, .ofCommands rs⟩ = c := by
  simp only [compile, bind_eq_ok, pure_eq_ok]

/-- a directory that the layout of a compiled description matches compiles it to the same steps -/
theorem compile_of_verify {d d' : Directory} {description : Description} {c : Computation}
    (hc : compile d description = .ok c) {u : Unit} (hv : c.layout.verify d' = .ok u) :
    compile d' description = .ok c := by
  obtain ⟨rs, hrs, rfl⟩ := compile_eq_ok.1 hc
  exact compile_eq_ok.2 ⟨rs, Command.resolveAll_of_verify hrs hv, rfl⟩

theorem typed_of_compile {d : Directory} {description : Description} {c : Computation}
    (hc : compile d description = .ok c) : ∀ r ∈ c.steps, r.operation.Typed d := by
  obtain ⟨rs, hrs, rfl⟩ := compile_eq_ok.1 hc
  exact Command.typed_of_resolveAll hrs

theorem verify_self {d : Directory} {description : Description} {c : Computation} (hc : compile d description = .ok c) :
    c.layout.verify d = .ok () := by
  obtain ⟨rs, hrs, rfl⟩ := compile_eq_ok.1 hc
  exact Command.verify_resolved hrs

/-- an execution whose layout matches succeeds, with the effects of its commands in order, `n` times over -/
theorem execute_eq {d : Directory} {description : Description} {c : Computation} {buf : Buffer .cpu} {s : Store}
    {n : Nat} (hc : compile d description = .ok c) {u : Unit} (hv : c.layout.verify buf.directory = .ok u)
    (h : LaidOut .cpu buf.directory (s.arena buf.arena)) :
    execute c buf s n = ⟨s.put buf.arena ((Command.afterAll .cpu c.steps)^[n] (s.arena buf.arena)),
      n * c.steps.length, .ok ()⟩ ∧
      LaidOut .cpu buf.directory ((Command.afterAll .cpu c.steps)^[n] (s.arena buf.arena)) := by
  have ht := typed_of_compile (compile_of_verify hc hv)
  have hstep : ∀ r ∈ c.steps, ∀ a, LaidOut .cpu buf.directory a →
      step r a = .ok () (r.operation.after .cpu a) ∧ LaidOut .cpu buf.directory (r.operation.after .cpu a) := by
    intro r hr a ha
    refine ⟨?_, Operation.laidOut_after ha (ht r hr)⟩
    simp [step, Run.attempt, apply_eq ha (ht r hr), Except.mapError]
  obtain ⟨hrun, hl⟩ := Run.times_eq hstep n 0 h
  refine ⟨?_, hl⟩
  rw [execute, hv]
  simp only [hrun, Nat.zero_add]
  rfl

end Cpu

end ArrayEngine
