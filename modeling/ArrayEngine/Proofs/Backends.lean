/-
Both backends come to the same.

A program fills a new buffer from the arrays it has in hand, one insertion after the other. An array that was inserted
is the view of its new place from then on, and may be inserted again.
- `insert_eq_some`: an insertion sets one name to the array it is given, and what every array in hand reads stays;
- `inserts_agree`: so the same insertions leave buffers of both backends that hold the same arrays under the same names;
- `Denotes.transfer`: a command that one of them resolves the other one resolves, as only kinds and shapes matter;
- `backends_agree`: a description that compiles on the device compiles on the host, and executions of it on both leave
  the same arrays.
-/
import ArrayEngine.Proofs.Contents
import ArrayEngine.Proofs.GpuRun

namespace ArrayEngine

/-! ## Filling a buffer -/

/-- a buffer that is being filled, with the arrays in hand -/
structure Filling (b : Backend) where
  store : Store
  buffer : Buffer b
  handles : List Tensor

namespace Filling

variable {b : Backend}

/-- what the buffer holds by name -/
def contents (f : Filling b) : Contents := f.buffer.contents f.store

/-- what the arrays in hand read: their shapes and elements -/
def readings (f : Filling b) : List (Shape × Except Fault (List Single)) :=
  f.handles.map fun t => (t.shape, t.data f.store)

/-- an array in hand inserted under a name, if that succeeds; it is the view of its new place then -/
def insert (f : Filling b) (name : String) (handle : Nat) : Option (Filling b) := do
  let (store, buffer, t) ← (f.buffer.insert f.store name (← f.handles[handle]?)).toOption
  return ⟨store, buffer, f.handles.set handle t⟩

/-- insertions in order, if all of them succeed -/
def inserts (f : Filling b) (entries : List (String × Nat)) : Option (Filling b) :=
  entries.foldlM (fun f entry => f.insert entry.1 entry.2) f

/-- the buffer is laid out, and a view in hand is a window of another arena or of some item -/
structure Sound (f : Filling b) : Prop where
  lt_size : f.buffer.arena.index < f.store.arenas.size
  laidOut : LaidOut b f.buffer.directory (f.store.arena f.buffer.arena)
  held : ∀ t ∈ f.handles, ∀ w, t.storage = .view w → w.arena ≠ f.buffer.arena ∨
    ∃ name item, f.buffer.directory.get? name = some item ∧ w = ⟨f.buffer.arena, item.bodyWord b, item.count⟩

variable {f f' : Filling b}

theorem Sound.contents_eq (hf : f.Sound) :
    f.contents = f.buffer.directory.contents b (f.store.arena f.buffer.arena) := Buffer.contents_eq hf.laidOut

/-- what an array in hand reads is not changed by words that are appended -/
theorem Sound.data_grow (hf : f.Sound) {t : Tensor} (ht : t ∈ f.handles) {a : Arena}
    (hgrown : LaidOut b f.buffer.directory a)
    (hag : (f.store.arena f.buffer.arena).AgreeOn a 0 (f.store.arena f.buffer.arena).size) :
    t.data (f.store.put f.buffer.arena a) = t.data f.store := by
  obtain ⟨shape, storage⟩ := t
  cases storage with
  | owned xs => rfl
  | view w =>
    rcases hf.held _ ht w rfl with hother | ⟨name, item, hi, rfl⟩
    · simp only [Tensor.data, Window.read, Store.arena_put_of_ne hother]
    · have hself := Store.arena_put_self hf.lt_size a
      have hbefore := Buffer.data_handle hf.laidOut hi shape
      have hafter := Buffer.data_handle (s := f.store.put f.buffer.arena a) (hself.symm ▸ hgrown) hi shape
      rw [hself, hf.laidOut.elements_grow hag hi] at hafter
      exact hafter.trans hbefore.symm

/-- an array with a header appended to the arena, recorded under a name, and its handle made the view of its place -/
def record (f : Filling b) (name : String) (handle : Nat) (t : Tensor) (header : List UInt32) (xs : List Single) :
    Filling b :=
  let item := Buffer.newItem b (f.store.arena f.buffer.arena) t
  ⟨f.store.put f.buffer.arena ((f.store.arena f.buffer.arena).extended header xs),
    ⟨f.buffer.arena, ⟨f.buffer.directory.items.put name item⟩⟩, f.handles.set handle (f.buffer.handle item t.shape)⟩

section

variable {name : String} {handle : Nat} {t : Tensor} {header : List UInt32} {xs : List Single}

theorem arena_record (hf : f.Sound) : (f.record name handle t header xs).store.arena f.buffer.arena =
    (f.store.arena f.buffer.arena).extended header xs := Store.arena_put_self hf.lt_size _

theorem sound_record (hf : f.Sound) (hfree : f.buffer.directory.get? name = none)
    (hheader : b.header t.shape = .ok header) (hcount : t.shape.elementCount = .ok xs.length)
    (hcap : Size.wordBytes * ((f.store.arena f.buffer.arena).size + (header.length + xs.length)) <
      Size.allocationBound) :
    (f.record name handle t header xs).Sound where
  lt_size := by simpa [record] using hf.lt_size
  laidOut := (arena_record hf).symm ▸ Buffer.laidOut_extended hf.laidOut hfree hheader hcount hcap
  held v hv w hw := by
    rcases List.mem_or_eq_of_mem_set hv with hv | rfl
    · rcases hf.held v hv w hw with hother | ⟨n, item, hi, rfl⟩
      · exact .inl hother
      · have hne : n ≠ name := by
          intro hn
          rw [hn, hfree] at hi
          cases hi
        exact .inr ⟨n, item, (Directory.get?_put_of_ne _ hne _).trans hi, rfl⟩
    · cases hw
      exact .inr ⟨name, _, Directory.get?_put_self _ _ _, rfl⟩

theorem contents_record (hf : f.Sound) (hf' : (f.record name handle t header xs).Sound)
    (hheader : b.header t.shape = .ok header) (hcount : t.shape.elementCount = .ok xs.length) :
    (f.record name handle t header xs).contents = Function.update f.contents name (some ⟨t.shape, .owned xs⟩) := by
  have hafter : (f.record name handle t header xs).contents =
      Directory.contents b ⟨f.buffer.directory.items.put name (Buffer.newItem b (f.store.arena f.buffer.arena) t)⟩
        ((f.store.arena f.buffer.arena).extended header xs) := by
    rw [hf'.contents_eq, ← arena_record hf]
    rfl
  rw [hafter, hf.contents_eq]
  funext n
  by_cases hn : n = name
  · subst hn
    rw [Function.update_self, Directory.contents, Directory.get?_put_self, Option.bind_some, Item.tensor,
      Buffer.elements_newItem hheader hcount]
    exact congrArg (Option.map _) (Shape.ofExtents?_extents t.shape)
  · rw [Function.update_of_ne hn, Directory.contents, Directory.contents, Directory.get?_put_of_ne _ hn]
    cases hi : f.buffer.directory.get? n with
    | none => rfl
    | some item =>
      have hkept := hf.laidOut.elements_grow ((f.store.arena f.buffer.arena).agreeOn_extended header xs) hi
      simp only [Option.bind_some, Item.tensor, hkept]

/-- the handle of an array that was inserted reads what it read before, and so does every other one -/
theorem readings_record (hf : f.Sound) (hf' : (f.record name handle t header xs).Sound)
    (ht : f.handles[handle]? = some t) (hxs : t.data f.store = .ok xs) (hheader : b.header t.shape = .ok header)
    (hcount : t.shape.elementCount = .ok xs.length)
    (hgrown : LaidOut b f.buffer.directory ((f.store.arena f.buffer.arena).extended header xs)) :
    (f.record name handle t header xs).readings = f.readings := by
  have harena : (f.record name handle t header xs).store.arena f.buffer.arena =
      (f.store.arena f.buffer.arena).extended header xs := arena_record hf
  have hplaced := Buffer.elements_newItem (a := f.store.arena f.buffer.arena) hheader hcount
  rw [← harena] at hplaced
  have hdata :=
    (Buffer.data_handle hf'.laidOut (Directory.get?_put_self _ _ _) t.shape).trans (congrArg Except.ok hplaced)
  have hkept : f.handles.map (fun v => (v.shape, v.data (f.record name handle t header xs).store)) = f.readings := by
    apply List.map_congr_left
    intro v hv
    rw [← hf.data_grow hv hgrown ((f.store.arena f.buffer.arena).agreeOn_extended header xs)]
    rfl
  have hread : f.readings[handle]? = some (t.shape, .ok xs) := by
    rw [readings, List.getElem?_map, ht, Option.map_some, hxs]
  obtain ⟨hlt, hget⟩ := List.getElem?_eq_some_iff.1 hread
  calc (f.record name handle t header xs).readings
      = (f.handles.map fun v => (v.shape, v.data (f.record name handle t header xs).store)).set handle
          (t.shape, .ok xs) := by
        rw [← hdata]
        exact List.map_set
    _ = f.readings := by
        rw [hkept, ← hget]
        exact List.set_getElem_self hlt

end

/-- **One insertion.** It sets its name to what the handle reads, and every handle reads what it read before. -/
theorem insert_eq_some (hf : f.Sound) {name : String} {handle : Nat} (h : f.insert name handle = some f') :
    f'.Sound ∧ f'.readings = f.readings ∧ ∃ shape xs, f.readings[handle]? = some (shape, .ok xs) ∧
      f'.contents = Function.update f.contents name (some ⟨shape, .owned xs⟩) := by
  obtain ⟨t, ht, h⟩ := Option.bind_eq_some_iff.1 h
  obtain ⟨r, hins, h⟩ := Option.bind_eq_some_iff.1 h
  obtain ⟨header, xs, hfree, hheader, hxs, hcount, hcap, rfl⟩ := Buffer.insert_eq_ok.1 (toOption_eq_some.1 hins)
  obtain rfl : f.record name handle t header xs = f' := Option.some.inj h
  have hf' : (f.record name handle t header xs).Sound := sound_record hf hfree hheader hcount hcap
  have hgrown : LaidOut b f.buffer.directory ((f.store.arena f.buffer.arena).extended header xs) :=
    hf.laidOut.grow (by simpa using hcap) (by simp) ((f.store.arena f.buffer.arena).agreeOn_extended header xs)
  refine ⟨hf', readings_record hf hf' ht hxs hheader hcount hgrown, t.shape, xs, ?_,
    contents_record hf hf' hheader hcount⟩
  rw [readings, List.getElem?_map, ht, Option.map_some, hxs]

/-! ## The same insertions -/

/-- buffers that hold the same arrays by name, with handles that read the same -/
structure Agrees {b b' : Backend} (f : Filling b) (g : Filling b') : Prop where
  contents : f.contents = g.contents
  readings : f.readings = g.readings

variable {b' : Backend} {g g' : Filling b'}

theorem insert_agrees (hf : f.Sound) (hg : g.Sound) (h : f.Agrees g) {name : String} {handle : Nat}
    (hf' : f.insert name handle = some f') (hg' : g.insert name handle = some g') : f'.Agrees g' := by
  obtain ⟨-, hkept, shape, xs, hread, hcontents⟩ := insert_eq_some hf hf'
  obtain ⟨-, hkept', shape', xs', hread', hcontents'⟩ := insert_eq_some hg hg'
  rw [h.readings] at hread
  cases hread.symm.trans hread'
  exact ⟨by rw [hcontents, hcontents', h.contents], by rw [hkept, hkept', h.readings]⟩

theorem inserts_agree (hf : f.Sound) (hg : g.Sound) (h : f.Agrees g) {entries : List (String × Nat)}
    (hf' : f.inserts entries = some f') (hg' : g.inserts entries = some g') :
    f'.Sound ∧ g'.Sound ∧ f'.Agrees g' := by
  induction entries generalizing f g with
  | nil =>
    cases hf'
    cases hg'
    exact ⟨hf, hg, h⟩
  | cons entry entries ih =>
    obtain ⟨f₁, hf₁, hf'⟩ := Option.bind_eq_some_iff.1 hf'
    obtain ⟨g₁, hg₁, hg'⟩ := Option.bind_eq_some_iff.1 hg'
    exact ih (insert_eq_some hf hf₁).1 (insert_eq_some hg hg₁).1 (insert_agrees hf hg h hf₁ hg₁) hf' hg'

/-- a buffer that was filled holds the names of the insertions beside those it had -/
theorem contents_inserts (hf : f.Sound) {entries : List (String × Nat)} (hf' : f.inserts entries = some f')
    (name : String) :
    (f'.contents name).isSome ↔ (f.contents name).isSome ∨ name ∈ entries.map Prod.fst := by
  induction entries generalizing f with
  | nil =>
    cases hf'
    simp
  | cons entry entries ih =>
    obtain ⟨f₁, hf₁, hf'⟩ := Option.bind_eq_some_iff.1 hf'
    obtain ⟨hsound, -, shape, xs, -, hcontents⟩ := insert_eq_some hf hf₁
    rw [ih hsound hf', hcontents, List.map_cons, List.mem_cons, ← or_assoc]
    refine or_congr_left ?_
    by_cases hn : name = entry.1
    · simp [hn]
    · simp [hn]

end Filling

/-! ## Commands on both backends -/

/-- a binding whose item stands at another offset -/
def Binding.at (x : Binding) (offset : Nat) : Binding := { x with item := { x.item with offset := offset } }

/-- the rules look at names, kinds and shapes only -/
theorem Command.Denotes.transfer {d d' : Directory} {tokens : List String} {op : Operation} (h : Denotes d tokens op)
    (hd : ∀ x : Binding, x.Recorded d → ∃ offset, (x.at offset).Recorded d') : ∃ op', Denotes d' tokens op' := by
  cases h with
  | @scale dest src text factor n hdest hsrc hfactor hdn hsn =>
    obtain ⟨i, hdest'⟩ := hd _ hdest
    obtain ⟨j, hsrc'⟩ := hd _ hsrc
    have hop :
        Denotes d' [(dest.at i).name, "multiply", (src.at j).name, text] (.scale (dest.at i) (src.at j) factor) :=
      .scale hdest' hsrc' hfactor hdn hsn
    exact ⟨_, hop⟩
  | @product dest matrix vector hdest hmatrix hvector hmk hdn hvn =>
    obtain ⟨i, hdest'⟩ := hd _ hdest
    obtain ⟨j, hmatrix'⟩ := hd _ hmatrix
    obtain ⟨k, hvector'⟩ := hd _ hvector
    have hop : Denotes d' [(dest.at i).name, "multiply", (matrix.at j).name, (vector.at k).name]
        (.product (dest.at i) (matrix.at j) (vector.at k)) := .product hdest' hmatrix' hvector' hmk hdn hvn
    exact ⟨_, hop⟩
  | @add dest lhs rhs n hdest hlhs hrhs hdn hln hrn =>
    obtain ⟨i, hdest'⟩ := hd _ hdest
    obtain ⟨j, hlhs'⟩ := hd _ hlhs
    obtain ⟨k, hrhs'⟩ := hd _ hrhs
    have hop : Denotes d' [(dest.at i).name, "add", (lhs.at j).name, (rhs.at k).name]
        (.add (dest.at i) (lhs.at j) (rhs.at k)) := .add hdest' hlhs' hrhs' hdn hln hrn
    exact ⟨_, hop⟩

section

variable {b b' : Backend} {d d' : Directory} {a a' : Arena}

/-- items that hold the same array have the same kind and shape -/
theorem recorded_of_contents (h : LaidOut b d a) (hc : d.contents b a = d'.contents b' a')
    {x : Binding} (hx : x.Recorded d) : ∃ offset, (x.at offset).Recorded d' := by
  obtain ⟨shape, hshape, hkind, hextents⟩ := (h.stored hx.2).exists_shape
  have hheld : d.contents b a x.name = some ⟨shape, .owned (x.item.elements b a)⟩ := by
    rw [Directory.contents, hx.2, Option.bind_some, Item.tensor, hshape]
    rfl
  rw [hc, Directory.contents] at hheld
  obtain ⟨item, hi, htensor⟩ := Option.bind_eq_some_iff.1 hheld
  obtain ⟨shape', hshape', heq⟩ := Option.map_eq_some_iff.1 htensor
  obtain ⟨hkind', hextents'⟩ := Shape.extents_of_ofExtents? hshape'
  obtain rfl : shape' = shape := congrArg Tensor.shape heq
  refine ⟨item.offset, hx.1, hi.trans (congrArg some ?_)⟩
  obtain ⟨kind, offset, extents⟩ := item
  simp only at hkind' hextents'
  simp only [Binding.at, ← hkind, ← hextents, ← hkind', ← hextents']

/-- where the arrays are the same, the descriptions that resolve are the same -/
theorem resolveAll_of_contents (h : LaidOut b d a) (hc : d.contents b a = d'.contents b' a')
    {description : Description} {rs : List Resolved} (hrs : Command.resolveAll d description = .ok rs) :
    ∃ rs', Command.resolveAll d' description = .ok rs' := by
  have hall := exists_mapM_eq_ok.1 ⟨rs, hrs⟩
  refine exists_mapM_eq_ok.2 ?_
  intro command hcommand
  obtain ⟨r, hr⟩ := hall command hcommand
  obtain ⟨-, tokens, htokens, hden⟩ := Command.resolve_eq_ok.1 hr
  obtain ⟨op, hop⟩ := hden.transfer fun x hx => recorded_of_contents h hc hx
  exact ⟨⟨command, op⟩, Command.resolve_eq_ok.2 ⟨rfl, tokens, htokens, hop⟩⟩

end

namespace Session

/-- a new buffer, with the arrays in hand -/
def start (s : Session) (b : Backend) : Filling b :=
  let (buffer, store) := Buffer.create b s.store
  ⟨store, buffer, s.handles⟩

/-- a new buffer, filled with arrays in hand -/
def fill (s : Session) (b : Backend) (entries : List (String × Nat)) : Option (Filling b) := (s.start b).inserts entries

theorem sound_start {s : Session} (h : s.WellFormed) (b : Backend) : (s.start b).Sound where
  lt_size := by simp [start, Buffer.create, Store.create]
  laidOut := by
    have harena := s.store.arena_create_self
    simp only [start, Buffer.create, harena]
    exact LaidOut.empty b
  held t ht w hw := by
    obtain ⟨x, -, -, hx, -⟩ := h.held ht w hw
    have hlt := (List.getElem?_eq_some_iff.1 hx).1
    left
    intro harena
    have hindex : w.arena.index = s.store.arenas.size := congrArg ArenaId.index harena
    rw [hindex, h.size] at hlt
    exact Nat.lt_irrefl _ hlt

/-- new buffers of both backends hold nothing -/
theorem start_agrees (s : Session) (b b' : Backend) : (s.start b).Agrees (s.start b') := ⟨rfl, rfl⟩

variable {δ : Type} [Device δ] [LawfulDevice δ]

/-- **The backends agree.** Take the arrays in hand after any run, and insert some of them in some order into a new
buffer of each backend. If a description compiles on the device, on any executor, and every matrix operand has a column,
it compiles on the host; both executions succeed, and afterwards both buffers hold the same arrays, bit by bit, under
exactly the inserted names. -/
theorem backends_agree (actions : List (Action δ)) (entries : List (String × Nat)) {c : Filling .cpu} {g : Filling .gpu}
    (hc : (run .empty actions).fill .cpu entries = some c) (hg : (run .empty actions).fill .gpu entries = some g)
    {e e' : Gpu.Executor HostDevice} (he : e.Reached) {description : Description} {compiled : Gpu.Computation}
    (hcompile : Gpu.Executor.compile g.buffer.directory description e = .ok compiled e')
    (hcols : ∀ rs, Command.resolveAll g.buffer.directory description = .ok rs → ∀ r ∈ rs, r.operation.HasColumns)
    (n : Nat) :
    ∃ host, Cpu.compile c.buffer.directory description = .ok host ∧
      let cpu := Cpu.execute host c.buffer c.store n
      let gpu := e'.execute compiled g.buffer g.store n
      cpu.result = .ok () ∧ gpu.result = .ok () ∧ c.buffer.contents cpu.store = g.buffer.contents gpu.store ∧
        ∀ name, (g.buffer.contents gpu.store name).isSome ↔ name ∈ entries.map Prod.fst := by
  have hwf := (wellFormed_run wellFormed_empty actions).1
  obtain ⟨hcs, hgs, hagree⟩ := Filling.inserts_agree (sound_start hwf .cpu) (sound_start hwf .gpu)
    (start_agrees _ .cpu .gpu) hc hg
  have hsame : c.buffer.directory.contents .cpu (c.store.arena c.buffer.arena) =
      g.buffer.directory.contents .gpu (g.store.arena g.buffer.arena) := by
    rw [← hcs.contents_eq, ← hgs.contents_eq, hagree.contents]
  -- the device: an execution has the effects of the commands
  obtain ⟨rs, hrs, hresult, hstore⟩ := Gpu.Executor.execute_eq he.honest hgs.laidOut hcompile hcols n
  obtain ⟨hrun, hlaid⟩ := run_of_resolve hgs.laidOut (mapM_eq_ok.1 hrs) n
  -- the host resolves the same commands, and runs them on the same contents
  obtain ⟨rs', hrs'⟩ := resolveAll_of_contents hgs.laidOut hsame.symm hrs
  have hhost := Cpu.compile_eq_ok.2 ⟨rs', hrs', rfl⟩
  obtain ⟨hexec, -⟩ := Cpu.execute_eq (n := n) hhost (Cpu.verify_self hhost) hcs.laidOut
  obtain ⟨hrun', hlaid'⟩ := run_of_resolve hcs.laidOut (mapM_eq_ok.1 hrs') n
  rw [hsame, hrun] at hrun'
  have hcpu : c.buffer.contents (Cpu.execute ⟨rs', .ofCommands rs'⟩ c.buffer c.store n).store =
      c.buffer.directory.contents .cpu ((Command.afterAll .cpu rs')^[n] (c.store.arena c.buffer.arena)) := by
    have hself := Store.arena_put_self hcs.lt_size ((Command.afterAll .cpu rs')^[n] (c.store.arena c.buffer.arena))
    rw [hexec, Buffer.contents_eq (by rw [hself]; exact hlaid'), hself]
  have hgpu : g.buffer.contents (e'.execute compiled g.buffer g.store n).store =
      g.buffer.directory.contents .gpu ((Command.afterAll .gpu rs)^[n] (g.store.arena g.buffer.arena)) := by
    have hself := Store.arena_put_self hgs.lt_size ((Command.afterAll .gpu rs)^[n] (g.store.arena g.buffer.arena))
    rw [hstore, Buffer.contents_eq (by rw [hself]; exact hlaid), hself]
  refine ⟨_, hhost, ?_, hresult, ?_, ?_⟩
  · rw [hexec]
  · rw [hcpu, hgpu]
    exact (Option.some.inj hrun').symm
  · intro name
    have hnames := Filling.contents_inserts (sound_start hwf .gpu) hg name
    rw [hgs.contents_eq, contents_isSome hgs.laidOut] at hnames
    rw [hgpu, contents_isSome hlaid, hnames]
    exact or_iff_right Bool.false_ne_true

/-- a matrix and two vectors in hand -/
def arrays : List (Action HostDevice) :=
  [.own (.matrix 2 2) [⟨0x3f800000⟩, ⟨0x40000000⟩, .zero, .negZero], .own (.vector 2) [⟨0x3f800000⟩, ⟨0x40400000⟩],
    .own (.vector 2) [.zero, .zero]]

theorem backends_agree_sample : ∃ (c : Filling .cpu) (g : Filling .gpu) (e' : Gpu.Executor HostDevice)
    (compiled : Gpu.Computation) (host : Cpu.Computation),
    (run .empty arrays).fill .cpu [("v", 1), ("m", 0), ("w", 2)] = some c ∧
      (run .empty arrays).fill .gpu [("v", 1), ("m", 0), ("w", 2)] = some g ∧
      Gpu.Executor.compile g.buffer.directory ⟨["w = multiply m v", "v = add v w"]⟩ (.create .empty) = .ok compiled e' ∧
      c.buffer.contents (Cpu.execute host c.buffer c.store 2).store =
        g.buffer.contents (e'.execute compiled g.buffer g.store 2).store ∧
      (g.buffer.contents (e'.execute compiled g.buffer g.store 2).store "w").isSome := by
  let entries : List (String × Nat) := [("v", 1), ("m", 0), ("w", 2)]
  let description : Description := ⟨["w = multiply m v", "v = add v w"]⟩
  have hcpu : ((run .empty arrays).fill .cpu entries).isSome = true := by decide +kernel
  have hgpu : (match (run .empty arrays).fill .gpu entries with
    | some g => (Gpu.plan g.buffer.directory description).toOption.isSome &&
      (match Command.resolveAll g.buffer.directory description with
        | .ok rs => decide (∀ r ∈ rs, r.operation.HasColumns)
        | .error _ => false)
    | none => false) = true := by decide +kernel
  obtain ⟨c, hc⟩ := Option.isSome_iff_exists.1 hcpu
  split at hgpu
  · next g hg =>
    obtain ⟨hplan, hcols⟩ := Bool.and_eq_true_iff.1 hgpu
    obtain ⟨⟨layout, gs⟩, hplan⟩ := Option.isSome_iff_exists.1 hplan
    have hstart := sound_start (wellFormed_run wellFormed_empty arrays).1 .gpu
    have hsound := (Filling.inserts_agree hstart hstart ⟨rfl, rfl⟩ hg hg).1
    have he := Gpu.Executor.reached_create .empty
    obtain ⟨steps, e', hcompile, -⟩ := Gpu.Executor.compile_eq_ok he.honest hsound.laidOut (toOption_eq_some.1 hplan)
    have hall : ∀ rs, Command.resolveAll g.buffer.directory description = .ok rs →
        ∀ r ∈ rs, r.operation.HasColumns := by
      intro rs hrs
      rw [hrs] at hcols
      exact of_decide_eq_true hcols
    obtain ⟨host, -, -, -, hsame, hnames⟩ := backends_agree arrays entries hc hg he hcompile hall 2
    exact ⟨c, g, e', _, host, hc, hg, hcompile, hsame, (hnames "w").2 (by decide)⟩
  · cases hgpu

end Session

end ArrayEngine
