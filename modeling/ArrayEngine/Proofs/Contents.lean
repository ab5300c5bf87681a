/-
What a buffer holds by name, and what commands mean on that alone.

`Contents` forgets the layout: it gives the array of a name. A command takes the arrays of its operands, applies the
host operator to them and sets its destination to the result (`Contents.step`); `Contents.run` folds the commands of a
description, n times over. `Buffer.contents` is what `view` answers, copied.
- `contents_eq`: on a buffer that is laid out these are the recorded shapes with the elements in the arena;
- `value_of_denotes`, `contents_after`: an operation sets its destination to what the host operator gives, and nothing
  else;
- `execute_refines`: an execution on the host leaves what the run of the commands leaves.
-/
import ArrayEngine.Proofs.Session

namespace ArrayEngine

/-- arrays by name -/
abbrev Contents := String → Option Tensor

namespace Contents

/-- the destination of a command and the result of its operator, by the tokens of the command. The second operand of
`multiply` is a factor if it reads as a number -/
def value (m : Contents) : List String → Option (String × Tensor)
  | [dest, "multiply", lhs, rhs] => do
    let x ← m lhs
    match Single.readFinite rhs.toList with
    | some factor => return (dest, ← (x.times .empty factor).toOption)
    | none => return (dest, ← (x.product (← m rhs) .empty).toOption)
  | [dest, "add", lhs, rhs] => do
    let x ← m lhs
    let y ← m rhs
    return (dest, ← (x.plus y .empty).toOption)
  | _ => none

/-- the contents after a command: its destination holds the result, every other name what it held -/
def step (m : Contents) (command : String) : Option Contents := do
  let tokens ← (Command.tokenize command).toOption
  let (dest, result) ← m.value tokens
  return Function.update m dest (some result)

/-- the contents after the commands of a list, `n` times over in order -/
def run (m : Contents) (commands : List String) (n : Nat) : Option Contents :=
  (List.replicate n commands).flatten.foldlM step m

theorem run_succ (m : Contents) (commands : List String) (n : Nat) :
    m.run commands (n + 1) = (commands.foldlM step m).bind fun m => m.run commands n := by
  simp only [run, List.replicate_succ, List.flatten_cons, List.foldlM_append]
  rfl

end Contents

/-- what a name of a buffer holds, as it is viewed -/
def Buffer.contents {b : Backend} (buf : Buffer b) (s : Store) : Contents := fun name => do
  let item ← buf.directory.get? name
  let t ← (buf.view s name item.kind).toOption
  (t.copy s).toOption

/-! ## Host operators -/

namespace Tensor

variable {xs ys : List Single} {rows cols n : Nat} (s : Store)

theorem elementCount_vector (hn : n < Size.bound) (st : Storage) : (Tensor.mk (.vector n) st).elementCount = .ok n := by
  refine Eq.trans (Size.product_single (n := n)) ?_
  exact Size.checked_eq_ok.2 ⟨hn, rfl⟩

theorem times_vector (hn : n < Size.bound) (hx : xs.length = n) (factor : Single) :
    (Tensor.mk (.vector n) (.owned xs)).times s factor = .ok (vector (xs.map (· * factor))) := by
  have hscale : Kernel.scale xs factor n = .ok (xs.map (· * factor)) := Kernel.scale_eq_ok.2 ⟨hx, rfl⟩
  simp only [times, elementCount_vector hn, data, ok_bind, hscale]
  rfl

theorem plus_vector (hx : xs.length = n) (hy : ys.length = n) :
    (Tensor.mk (.vector n) (.owned xs)).plus ⟨.vector n, .owned ys⟩ s = .ok (vector (xs.zipWith (· + ·) ys)) := by
  have hadd : Kernel.add xs ys xs.length = .ok (xs.zipWith (· + ·) ys) :=
    Kernel.add_eq_ok.2 ⟨⟨hx.trans hy.symm, rfl⟩, rfl⟩
  simp only [plus, if_true, data, ok_bind, hadd]
  rfl

theorem product_matrix (hb : rows * cols < Size.bound) (hcols : cols < Size.bound) (hx : xs.length = rows * cols)
    (hy : ys.length = cols) (hrows : Size.wordBytes * rows < Size.allocationBound) :
    (Tensor.mk (.matrix rows cols) (.owned xs)).product ⟨.vector cols, .owned ys⟩ s =
      .ok (vector (Kernel.products rows cols xs ys)) := by
  have hagree : Kernel.agree cols cols = .ok () := Kernel.agree_eq_ok.2 rfl
  have halloc : Size.allocatable rows = .ok () := Size.allocatable_eq_ok.2 hrows
  have hmul : Kernel.matvec xs rows cols ys rows = .ok (Kernel.products rows cols xs ys) :=
    Kernel.matvec_eq_ok.2 ⟨⟨hb, hx, hy, rfl⟩, rfl⟩
  simp only [product, Shape.rowLength, Tensor.rows, extents, Shape.extents, List.headD_cons,
    elementCount_vector hcols, data, ok_bind, hagree, halloc, hmul]
  rfl

end Tensor

/-! ## Contents of an arena -/

/-- an item as an array that owns its elements -/
def Item.tensor (b : Backend) (a : Arena) (item : Item) : Option Tensor :=
  (Shape.ofExtents? item.kind item.shape).map fun shape => ⟨shape, .owned (item.elements b a)⟩

/-- the items of a directory, as arrays that own their elements -/
def Directory.contents (b : Backend) (d : Directory) (a : Arena) : Contents :=
  fun name => (d.get? name).bind (·.tensor b a)

/-- on a buffer that is laid out every item can be viewed, with the elements that stand in its place -/
theorem Buffer.contents_eq {b : Backend} {buf : Buffer b} {s : Store}
    (h : LaidOut b buf.directory (s.arena buf.arena)) :
    buf.contents s = buf.directory.contents b (s.arena buf.arena) := by
  funext name
  unfold contents Directory.contents
  cases hi : buf.directory.get? name with
  | none => rfl
  | some item =>
    obtain ⟨shape, hshape, -⟩ := (h.stored hi).exists_shape
    have hview : buf.view s name item.kind = .ok (buf.handle item shape) :=
      (view_eq_ok h).2 ⟨item, shape, hi, rfl, hshape, rfl⟩
    have hcopy : (buf.handle item shape).copy s = .ok ⟨shape, .owned (item.elements b (s.arena buf.arena))⟩ :=
      bind_eq_ok.2 ⟨_, data_handle h hi shape, rfl⟩
    have hcopied : ((buf.handle item shape).copy s).toOption = some _ := toOption_eq_some.2 hcopy
    have hviewed : (buf.view s name item.kind).toOption = some _ := toOption_eq_some.2 hview
    simp only [Option.bind_eq_bind, Option.bind_some, hviewed, hcopied, Item.tensor, hshape, Option.map_some]

section

variable {b : Backend} {d : Directory} {a : Arena} {x : Binding} {op : Operation}

theorem contents_isSome (h : LaidOut b d a) (name : String) : (d.contents b a name).isSome = (d.get? name).isSome := by
  unfold Directory.contents
  cases hi : d.get? name with
  | none => rfl
  | some item =>
    obtain ⟨shape, hshape, -⟩ := (h.stored hi).exists_shape
    simp [Item.tensor, hshape]

theorem contents_vector (h : LaidOut b d a) (hx : x.Recorded d) {n : Nat} (hn : x.IsVector n) :
    d.contents b a x.name = some ⟨.vector n, .owned (x.held b a)⟩ := by
  have hs := (h.stored hx.2).vector_shape hn.1
  have hk : x.item.kind = .vector := hn.1
  simp only [Directory.contents, hx.2, Option.bind_some, Item.tensor, hs, hk, hn.count]
  rfl

theorem contents_matrix (h : LaidOut b d a) (hx : x.Recorded d) (hk : x.kind = .matrix) :
    d.contents b a x.name = some ⟨.matrix x.item.rows x.item.cols, .owned (x.held b a)⟩ := by
  have hs := (h.stored hx.2).matrix_shape hk
  have hk' : x.item.kind = .matrix := hk
  rw [Directory.contents, hx.2, Option.bind_some, Item.tensor, hk', hs]
  rfl

theorem lt_bound_of_isVector (h : LaidOut b d a) (hx : x.Recorded d) {n : Nat} (hn : x.IsVector n) :
    Size.wordBytes * n < Size.allocationBound ∧ n < Size.bound := by
  have hcap := h.capacity
  have hin := (h.stored hx.2).inside
  rw [Item.endWord, hn.count] at hin
  simp only [Size.wordBytes, Size.allocationBound, Size.bound] at *
  omega

/-- the host operator on what the operands hold gives the results of the operation -/
theorem value_of_denotes (h : LaidOut b d a) {tokens : List String} (hop : Command.Denotes d tokens op) :
    (d.contents b a).value tokens = some (op.dest.name, .vector (op.results (Binding.held b a))) := by
  cases hop with
  | @scale dest src text factor n hdest hsrc hfactor hdn hsn =>
    have hlen := (Binding.length_held h hsrc).trans hsn.count
    have hbound := (lt_bound_of_isVector h hsrc hsn).2
    simp only [Contents.value, contents_vector h hsrc hsn, hfactor, Option.bind_eq_bind, Option.bind_some,
      Tensor.times_vector .empty hbound hlen]
    rfl
  | @product dest matrix vector hdest hmatrix hvector hmk hdn hvn =>
    have hshape := (h.stored hmatrix.2).matrix_shape hmk
    have hcounted := (h.stored hmatrix.2).counted
    rw [Item.elementCount, hshape] at hcounted
    obtain ⟨hbound, hcount⟩ := Size.mul_eq_ok.1 (Size.product_pair_eq_ok hcounted)
    have hlen := (Binding.length_held h hmatrix).trans hcount.symm
    have hvlen := (Binding.length_held h hvector).trans hvn.count
    have hcols := (lt_bound_of_isVector h hvector hvn).2
    have hrows := (lt_bound_of_isVector h hdest hdn).1
    simp only [Contents.value, contents_matrix h hmatrix hmk, contents_vector h hvector hvn, hvector.1,
      Option.bind_eq_bind, Option.bind_some, Tensor.product_matrix .empty hbound hcols hlen hvlen hrows]
    rfl
  | @add dest lhs rhs n hdest hlhs hrhs hdn hln hrn =>
    have hl := (Binding.length_held h hlhs).trans hln.count
    have hr := (Binding.length_held h hrhs).trans hrn.count
    simp only [Contents.value, contents_vector h hlhs hln, contents_vector h hrhs hrn, Option.bind_eq_bind,
      Option.bind_some, Tensor.plus_vector .empty hl hr]
    rfl

/-- an operation sets its destination and nothing else -/
theorem contents_after (h : LaidOut b d a) (hop : op.Typed d) :
    d.contents b (op.after b a) =
      Function.update (d.contents b a) op.dest.name (some (.vector (op.results (Binding.held b a)))) := by
  funext name
  by_cases hn : name = op.dest.name
  · subst hn
    rw [Function.update_self]
    rw [contents_vector (Operation.laidOut_after h hop) hop.dest_recorded hop.dest_isVector,
      Operation.elements_after_dest h hop, ← Operation.length_results h hop]
    rfl
  · rw [Function.update_of_ne hn]
    unfold Directory.contents
    cases hi : d.get? name with
    | none => rfl
    | some item => simp only [Option.bind_some, Item.tensor, Operation.elements_after_of_ne h hop hn hi]

/-! ## Runs of commands -/

/-- a resolved command is a step on the contents -/
theorem step_of_resolve (h : LaidOut b d a) {command : String} {r : Resolved} (hr : Command.resolve d command = .ok r) :
    (d.contents b a).step command = some (d.contents b (r.operation.after b a)) ∧
      LaidOut b d (r.operation.after b a) := by
  obtain ⟨-, tokens, htokens, hden⟩ := Command.resolve_eq_ok.1 hr
  have hop : r.operation.Typed d := ⟨tokens, hden⟩
  have htok : (Command.tokenize command).toOption = some tokens := toOption_eq_some.2 htokens
  refine ⟨?_, Operation.laidOut_after h hop⟩
  simp only [Contents.step, htok, value_of_denotes h hden, contents_after h hop, Option.bind_eq_bind, Option.bind_some]
  rfl

theorem foldlM_of_resolve (h : LaidOut b d a) {commands : List String} {rs : List Resolved}
    (hrs : List.Forall₂ (fun command r => Command.resolve d command = .ok r) commands rs) :
    commands.foldlM Contents.step (d.contents b a) = some (d.contents b (Command.afterAll b rs a)) ∧
      LaidOut b d (Command.afterAll b rs a) := by
  induction hrs generalizing a with
  | nil => exact ⟨rfl, h⟩
  | @cons command r commands rs hr _ ih =>
    obtain ⟨hstep, hlaid⟩ := step_of_resolve h hr
    obtain ⟨hrest, hl⟩ := ih hlaid
    refine ⟨?_, hl⟩
    rw [List.foldlM_cons, hstep]
    exact hrest

/-- resolved commands are a run on the contents, as many times over as they are repeated -/
theorem run_of_resolve (h : LaidOut b d a) {commands : List String} {rs : List Resolved}
    (hrs : List.Forall₂ (fun command r => Command.resolve d command = .ok r) commands rs) (n : Nat) :
    (d.contents b a).run commands n = some (d.contents b ((Command.afterAll b rs)^[n] a)) ∧
      LaidOut b d ((Command.afterAll b rs)^[n] a) := by
  induction n generalizing a with
  | zero => exact ⟨rfl, h⟩
  | succ n ih =>
    obtain ⟨hfold, hlaid⟩ := foldlM_of_resolve h hrs
    rw [Contents.run_succ, hfold, Function.iterate_succ_apply]
    exact ih hlaid

end

namespace Session

variable {δ : Type} [Device δ] [LawfulDevice δ]

/-- **Refinement.** On a buffer of any session, an execution of a description that compiles against it succeeds, every
recorded name can be viewed afterwards, and it holds what it holds after the commands were folded over the contents. -/
theorem execute_refines (actions : List (Action δ)) {i : Nat} {buf : Buffer .cpu}
    (hx : (run .empty actions).buffers[i]? = some ⟨.cpu, buf⟩) {description : Description} {c : Cpu.Computation}
    (hc : Cpu.compile buf.directory description = .ok c) (n : Nat) :
    let s := (run .empty actions).store
    let executed := Cpu.execute c buf s n
    executed.result = .ok () ∧
      (∀ name, (buf.contents executed.store name).isSome = (buf.directory.get? name).isSome) ∧
      (buf.contents s).run description.steps n = some (buf.contents executed.store) := by
  intro s executed
  have hwf := (wellFormed_run wellFormed_empty actions).1
  have hlaid : LaidOut .cpu buf.directory (s.arena buf.arena) := hwf.laidOut hx
  obtain ⟨hexec, -⟩ := Cpu.execute_eq (n := n) hc (Cpu.verify_self hc) hlaid
  obtain ⟨rs, hrs, rfl⟩ := Cpu.compile_eq_ok.1 hc
  obtain ⟨hrun, hafter⟩ := run_of_resolve hlaid (mapM_eq_ok.1 hrs) n
  have hput := Store.arena_put_self (hwf.lt_size hx) ((Command.afterAll .cpu rs)^[n] (s.arena buf.arena))
  have hstore : executed.store.arena buf.arena = (Command.afterAll .cpu rs)^[n] (s.arena buf.arena) := by
    simp only [executed, hexec]
    exact hput
  have hcontents : buf.contents executed.store =
      buf.directory.contents .cpu ((Command.afterAll .cpu rs)^[n] (s.arena buf.arena)) := by
    rw [Buffer.contents_eq (hstore ▸ hafter), hstore]
  refine ⟨by simp only [executed, hexec], ?_, ?_⟩
  · intro name
    rw [hcontents, contents_isSome hafter]
  · rw [hcontents, Buffer.contents_eq hlaid]
    exact hrun

theorem execute_refines_sample : ∃ (buf : Buffer .cpu) (c : Cpu.Computation),
    (run .empty sample).buffers[0]? = some ⟨.cpu, buf⟩ ∧
      (buf.contents (run .empty sample).store).run ["v = add v v", "v = multiply v 2"] 3 =
        some (buf.contents (Cpu.execute c buf (run .empty sample).store 3).store) := by
  let description : Description := ⟨["v = add v v", "v = multiply v 2"]⟩
  have hcompiles : (((run .empty sample).buffer? .cpu 0).any fun buf =>
      (Cpu.compile buf.directory description).toOption.isSome) = true := by decide +kernel
  obtain ⟨buf, hbuf, hc⟩ := (Option.any_eq_true _ _).1 hcompiles
  obtain ⟨c, hc⟩ := Option.isSome_iff_exists.1 hc
  have hx := buffers_of_buffer? hbuf
  exact ⟨buf, c, hx, (execute_refines sample hx (toOption_eq_some.1 hc) 3).2.2⟩

end Session

end ArrayEngine
