/-
That computations of one executor do not disturb each other, and what happens to those of another executor.

A step is run by its handle. On the device of the executor that built it, and of every later one, the handle gives the
program of the step's source (`Step.Holds`), whatever else was compiled or run there; on another device the same handle
may give another program, and nothing notices.
- `Step.Matches` relates the steps that two executors build for one group: the same up to the handle. `compile_matches`:
  executors with one local size compile a description alike, both with matching steps or both with the same failure;
- `Step.Matches.alike`: matching steps do the same to the same memory;
- `execute_eq_fresh`: so what was compiled at some point of a history ends, at any later point, as what a fresh executor
  compiles; neither the memory of the device nor its other shaders can be observed;
- `execute_elsewhere`: on another device this is so as long as the handles there give the programs of the sources;
  `execute_elsewhere_silent` is a run where they do not.
-/
import ArrayEngine.Proofs.Runner
import ArrayEngine.Proofs.Simulation

namespace ArrayEngine

open Shader (Group)

/-! ## Devices with the same memory -/

/-- what a dispatch of a program makes of the memory of a device -/
def Program.ranOn (p : Program) (memory : Option DeviceMemory) (workgroups : Nat) : Except Failure DeviceMemory := do
  let some m := memory | throw (.refused (.device .nothingToRunOn))
  checkExtents m.size p.calls
  m.run p.calls (← Size.mul workgroups p.localSize)

namespace HostDevice

/-- devices that hold the same numbers, each with certain programs behind its handles -/
structure Beside (P P' : Array Program) (d d' : HostDevice) : Prop where
  programs : d.programs = P
  programs' : d'.programs = P'
  memory : d.memory = d'.memory

variable {P P' : Array Program} {d d' : HostDevice}

/-- the bytes of an arena replace whatever a device held -/
theorem submit_beside (a : Arena) (hP : d.programs = P) (hP' : d'.programs = P') :
    SameEnd (Beside P P') (Device.submit a.bytes d) (Device.submit a.bytes d') := by
  rw [submit_bytes, submit_bytes]
  exact .ok () ⟨hP, hP', rfl⟩

theorem retrieve_beside (size : Nat) (h : Beside P P' d d') :
    SameEnd (Beside P P') (Device.retrieve size d) (Device.retrieve size d') := by
  simp only [Device.retrieve]
  have hsame : d.retrieve size = d'.retrieve size := by simp only [retrieve, h.memory]
  rw [hsame]
  cases d'.retrieve size with
  | ok bytes => exact .ok bytes h
  | error f => exact .error f h

/-- a dispatch of a program whose handle is known: what it does depends on the memory alone -/
theorem dispatch_of_held {shader : ShaderHandle} {p : Program} (hp : d.programs[shader.index]? = some p)
    (workgroups : Nat) :
    d.dispatch shader workgroups =
      (p.ranOn d.memory workgroups).map fun m => (⟨some m, d.programs⟩ : HostDevice) := by
  simp only [dispatch, hp, Program.ranOn]
  cases d.memory with
  | none => rfl
  | some m =>
    simp only
    cases checkExtents m.size p.calls with
    | error f => rfl
    | ok _ =>
      cases Size.mul workgroups p.localSize with
      | error f => rfl
      | ok invocations =>
        simp only [liftM, monadLift, MonadLift.monadLift, Except.mapError, ok_bind]
        cases m.run p.calls invocations <;> rfl

/-- handles of one program do the same to the same memory -/
theorem dispatch_beside {shader shader' : ShaderHandle} {p : Program} (hp : P[shader.index]? = some p)
    (hp' : P'[shader'.index]? = some p) (workgroups : Nat) (h : Beside P P' d d') :
    SameEnd (Beside P P') (Device.dispatch shader workgroups d) (Device.dispatch shader' workgroups d') := by
  obtain ⟨rfl, rfl, hmemory⟩ := h
  simp only [Device.dispatch, Run.attempt, dispatch_of_held hp, dispatch_of_held hp', hmemory]
  cases p.ranOn d'.memory workgroups with
  | error f => exact .error f ⟨rfl, rfl, hmemory⟩
  | ok m => exact .ok () ⟨rfl, rfl, rfl⟩

end HostDevice

namespace Gpu

/-! ## Matching steps -/

/-- a step whose handle gives the program of its source -/
def Step.Holds (programs : Array Program) (step : Step) : Prop :=
  ∃ p, Program.parse step.source = .ok p ∧ programs[step.shader.index]? = some p

theorem Step.Holds.extends {d d' : HostDevice} (hd : d'.Extends d) {step : Step} (h : step.Holds d.programs) :
    step.Holds d'.programs := by
  obtain ⟨p, hp, hheld⟩ := h
  exact ⟨p, hp, hd _ p hheld⟩

/-- steps that are the same up to the handle, each with a handle that gives the program of the source -/
structure Step.Matches (P P' : Array Program) (step step' : Step) : Prop where
  same : ∃ shader', { step with shader := shader' } = step'
  holds : step.Holds P
  holds' : step'.Holds P'

theorem Step.Matches.extends {d d' e e' : HostDevice} (hd : d'.Extends d) (he : e'.Extends e) {step step' : Step}
    (h : step.Matches d.programs e.programs step') : step.Matches d'.programs e'.programs step' :=
  ⟨h.same, h.holds.extends hd, h.holds'.extends he⟩

/-- **One dispatch.** Matching steps do the same to the same memory. -/
theorem Step.Matches.alike {P P' : Array Program} {step step' : Step} (h : step.Matches P P' step') :
    Step.Alike (HostDevice.Beside P P') step step' := by
  obtain ⟨⟨shader', rfl⟩, ⟨p, hp, hheld⟩, p', hp', hheld'⟩ := h
  obtain rfl := Except.ok.inj (hp.symm.trans hp')
  intro d d' hd
  exact HostDevice.dispatch_beside hheld hheld' _ hd

namespace Executor

variable {e e₀ : Executor HostDevice} {d : Directory} {description : Description}

/-- **One group.** Honest executors with one local size both build a step for it, and the steps match, or both refuse
its source with the same error. -/
theorem buildStep_matches (h : e.Honest) (h₀ : e₀.Honest) (hls : e.localSize = e₀.localSize) (g : Group) :
    (∃ step e' step₀ e₀', buildStep g e = .ok step e' ∧ buildStep g e₀ = .ok step₀ e₀' ∧ e'.Follows e ∧
      e₀'.Follows e₀ ∧ step.Matches e'.device.programs e₀'.device.programs step₀) ∨
    ∃ f, buildStep g e = .error f e ∧ buildStep g e₀ = .error f e₀ := by
  rw [buildStep_eq, buildStep_eq, ← hls]
  rcases obtain_cases h (Shader.render e.localSize g.calls) with ⟨p, shader, e', hp, hobtain, hfollows, hheld⟩ |
    ⟨f, hf, hobtain⟩ <;>
  rcases obtain_cases h₀ (Shader.render e.localSize g.calls) with ⟨p₀, shader₀, e₀', hp₀, hobtain₀, hfollows₀, hheld₀⟩ |
    ⟨f₀, hf₀, hobtain₀⟩ <;>
  rw [hobtain, hobtain₀]
  · exact .inl ⟨_, e', _, e₀', rfl, rfl, hfollows, hfollows₀, ⟨shader₀, rfl⟩, ⟨p, hp, hheld⟩, p₀, hp₀, hheld₀⟩
  · cases hp.symm.trans hf₀
  · cases hp₀.symm.trans hf
  · obtain rfl := Except.error.inj (hf.symm.trans hf₀)
    exact .inr ⟨_, rfl, rfl⟩

/-- **All groups.** So they do for a list of groups; the last executors still match all steps. -/
theorem mapM_buildStep_matches (h : e.Honest) (h₀ : e₀.Honest) (hls : e.localSize = e₀.localSize) (gs : List Group) :
    (∃ steps e' steps₀ e₀', gs.mapM buildStep e = .ok steps e' ∧ gs.mapM buildStep e₀ = .ok steps₀ e₀' ∧
      e'.Follows e ∧ e₀'.Follows e₀ ∧
      List.Forall₂ (Step.Matches e'.device.programs e₀'.device.programs) steps steps₀) ∨
    ∃ f e' e₀', gs.mapM buildStep e = .error f e' ∧ gs.mapM buildStep e₀ = .error f e₀' := by
  induction gs generalizing e e₀ with
  | nil => exact .inl ⟨[], e, [], e₀, rfl, rfl, h.follows_self, h₀.follows_self, .nil⟩
  | cons g gs ih =>
    rw [mapM_buildStep_cons, mapM_buildStep_cons]
    rcases buildStep_matches h h₀ hls g with ⟨step, e', step₀, e₀', hstep, hstep₀, hfollows, hfollows₀, hmatch⟩ |
      ⟨f, hstep, hstep₀⟩
    · rw [hstep, hstep₀]
      have hls' : e'.localSize = e₀'.localSize := by rw [hfollows.localSize, hfollows₀.localSize, hls]
      rcases ih hfollows.honest hfollows₀.honest hls' with
        ⟨steps, e'', steps₀, e₀'', hsteps, hsteps₀, hlater, hlater₀, hall⟩ | ⟨f, e'', e₀'', hsteps, hsteps₀⟩
      · simp only [hsteps, hsteps₀]
        exact .inl ⟨_, e'', _, e₀'', rfl, rfl, hfollows.trans hlater, hfollows₀.trans hlater₀,
          .cons (hmatch.extends hlater.programs hlater₀.programs) hall⟩
      · simp only [hsteps, hsteps₀]
        exact .inr ⟨f, e'', e₀'', rfl, rfl⟩
    · rw [hstep, hstep₀]
      exact .inr ⟨f, e, e₀, rfl, rfl⟩

/-- **Compiling.** Honest executors with one local size compile a description alike: to computations with one layout and
matching steps, or not at all and for the same reason. -/
theorem compile_matches (h : e.Honest) (h₀ : e₀.Honest) (hls : e.localSize = e₀.localSize) (d : Directory)
    (description : Description) :
    (∃ c e' c₀ e₀', Executor.compile d description e = .ok c e' ∧ Executor.compile d description e₀ = .ok c₀ e₀' ∧
      c.layout = c₀.layout ∧ c.localSize = c₀.localSize ∧
      List.Forall₂ (Step.Matches e'.device.programs e₀'.device.programs) c.steps c₀.steps) ∨
    ∃ f e' e₀', Executor.compile d description e = .error f e' ∧ Executor.compile d description e₀ = .error f e₀' := by
  unfold Executor.compile
  cases plan d description with
  | error f => exact .inr ⟨f, e, e₀, rfl, rfl⟩
  | ok planned =>
    obtain ⟨layout, gs⟩ := planned
    simp only
    rcases mapM_buildStep_matches h h₀ hls gs with
      ⟨steps, e', steps₀, e₀', hsteps, hsteps₀, hfollows, hfollows₀, hall⟩ | ⟨f, e', e₀', hsteps, hsteps₀⟩
    · rw [hsteps, hsteps₀]
      have hls' : e'.localSize = e₀'.localSize := by rw [hfollows.localSize, hfollows₀.localSize, hls]
      exact .inl ⟨_, e', _, e₀', rfl, rfl, rfl, hls', hall⟩
    · rw [hsteps, hsteps₀]
      exact .inr ⟨f, e', e₀', rfl, rfl⟩

/-- the steps that an honest executor compiles hold the programs of their sources -/
theorem holds_of_compile (h : e.Honest) {c : Computation} {e' : Executor HostDevice}
    (hc : Executor.compile d description e = .ok c e') : ∀ step ∈ c.steps, step.Holds e'.device.programs := by
  rcases compile_matches h h rfl d description with ⟨c', e', c₀, e₀, hc', hc₀, -, -, hsteps⟩ | ⟨f, e', e₀, hc', -⟩
  · cases hc.symm.trans hc'
    cases hc.symm.trans hc₀
    intro step hstep
    obtain ⟨i, hi, rfl⟩ := List.getElem_of_mem hstep
    exact (List.forall₂_iff_get.1 hsteps).2 i hi hi |>.holds
  · cases hc.symm.trans hc'

/-- computations with one layout and matching steps end in the same way, whatever their devices held before -/
theorem execute_matches {c c₀ : Computation} (hlayout : c.layout = c₀.layout)
    (hsteps : List.Forall₂ (Step.Matches e.device.programs e₀.device.programs) c.steps c₀.steps) (buf : Buffer .gpu)
    (s : Store) (n : Nat) :
    (e.execute c buf s n).Alike (fun d d' => d.programs = e.device.programs ∧ d'.programs = e₀.device.programs)
      (e₀.execute c₀ buf s n) :=
  execute_alike (fun _ _ h => ⟨h.programs, h.programs'⟩) hlayout (hsteps.imp fun _ _ h => h.alike) ⟨rfl, rfl⟩ buf s
    (HostDevice.submit_beside _ rfl rfl) (fun _ _ h => HostDevice.retrieve_beside _ h) n

/-- an execution leaves every other arena as it was -/
theorem arena_execute_of_ne {δ : Type} [Device δ] (e : Executor δ) (c : Computation) (buf : Buffer .gpu) (s : Store)
    (n : Nat) {id : ArenaId} (hne : id ≠ buf.arena) : (e.execute c buf s n).store.arena id = s.arena id := by
  unfold execute
  split
  · rfl
  · simp only
    split
    · exact Store.arena_put_of_ne hne _
    · rfl

/-- an execution that fails leaves the store as it was -/
theorem store_execute_of_error {δ : Type} [Device δ] {e : Executor δ} {c : Computation} {buf : Buffer .gpu} {s : Store}
    {n : Nat} {f : Failure} (hf : (e.execute c buf s n).result = .error f) : (e.execute c buf s n).store = s := by
  unfold execute at hf ⊢
  cases hv : c.layout.verify buf.directory with
  | error _ => rfl
  | ok _ =>
    simp only [hv] at hf ⊢
    cases hr : (c.runOn (buf.bytes s) n e.device).result with
    | ok bytes =>
      rw [hr] at hf
      cases hf
    | error _ => rfl

/-- nothing but the handle and the workgroups of a step is looked at when it is executed -/
theorem execute_congr {c c' : Computation} (hlayout : c.layout = c'.layout)
    (hsteps : List.Forall₂ (fun step step' => step.shader = step'.shader ∧ step.workgroups = step'.workgroups)
      c.steps c'.steps) (buf : Buffer .gpu) (s : Store) (n : Nat) :
    (e.execute c buf s n).result = (e.execute c' buf s n).result ∧
      (e.execute c buf s n).store = (e.execute c' buf s n).store := by
  have hsame : ∀ {α : Type} (act : EStateM Failure HostDevice α) d d', d = d' → SameEnd Eq (act d) (act d') := by
    intro α act d d' hd
    rw [hd]
    cases act d' with
    | ok a d => exact .ok a rfl
    | error f d => exact .error f rfl
  have halike : List.Forall₂ (Step.Alike (σ := HostDevice) Eq) c.steps c'.steps := by
    refine hsteps.imp ?_
    intro step step' hstep
    rw [Step.Alike, hstep.1, hstep.2]
    exact hsame _
  obtain ⟨-, hstore, -, hresult⟩ := execute_alike (e := e) (fun _ _ h => h) hlayout halike rfl buf s
    (hsame _ _ _ rfl) (hsame _) n
  exact ⟨hresult, hstore⟩

/-! ## Fresh executors -/

/-- an executor with a new device and no shaders -/
def fresh (fingerprint : String → UInt64) (localSize : Nat) : Executor HostDevice :=
  withLocalSize ⟨.empty, LocalSize.default, fingerprint, []⟩ localSize

theorem honest_fresh (fingerprint : String → UInt64) {localSize : Nat} (hbound : localSize < Size.bound) :
    (fresh fingerprint localSize).Honest :=
  ⟨Nat.lt_of_lt_of_le Nat.one_pos (le_max_right _ _), max_lt hbound (by decide), fun _ hentry => nomatch hentry⟩

theorem localSize_fresh (fingerprint : String → UInt64) {localSize : Nat} (hpos : 0 < localSize) :
    (fresh fingerprint localSize).localSize = localSize := max_eq_left hpos

/-- a single group compiled by an executor without shaders: its handle is the next one of the device -/
theorem compile_single (h : e.Honest) (hcache : e.cache = []) {a : Arena} (hlaid : LaidOut .gpu d a)
    {layout : Signature} {g : Group} (hplan : plan d description = .ok (layout, [g])) :
    ∃ step e', Executor.compile d description e = .ok ⟨[step], layout, e.localSize⟩ e' ∧
      step.shader = ⟨e.device.programs.size⟩ ∧
      step.workgroups = (g.workSize + e.localSize - 1) / e.localSize := by
  obtain ⟨steps, e', hc, -, hruns⟩ := compile_eq_ok h hlaid hplan
  obtain ⟨_, _, steps', hplan', hsteps, hcomp⟩ := compile_iff.1 hc
  cases hplan.symm.trans hplan'
  obtain rfl : steps' = steps := congrArg Computation.steps hcomp
  obtain ⟨step, _, hrun, hnil, rfl⟩ := List.forall₂_cons_left_iff.1 hruns
  obtain rfl := List.forall₂_nil_left_iff.1 hnil
  refine ⟨step, e', hc, ?_, hrun.workgroups⟩
  have hnone : e.cached? (Shader.render e.localSize g.calls) = none := by simp only [cached?, hcache, List.find?_nil]
  rw [mapM_buildStep_cons, buildStep_eq, obtain_eq, hnone] at hsteps
  cases hp : Program.parse (Shader.render e.localSize g.calls) with
  | ok p =>
    rw [hp] at hsteps
    cases hsteps
    rfl
  | error f =>
    rw [hp] at hsteps
    cases hsteps

end Executor

end Gpu

namespace Session

open Gpu Gpu.Executor

/-- a buffer with one vector of two elements, 1 and 2 -/
def pair : List (Action HostDevice) :=
  [.create .gpu, .own (.vector 2) [⟨0x3f800000⟩, ⟨0x40000000⟩], .insert 0 "a" 0]

/-- the buffer that `pair` makes -/
def pairBuffer : Buffer .gpu := ⟨⟨0⟩, ⟨(∅ : NameMap Item).put "a" ⟨.vector, 0, [2]⟩⟩⟩

theorem buffers_pair : (run .empty pair).buffers[0]? = some ⟨.gpu, pairBuffer⟩ :=
  buffers_of_buffer? (by decide +kernel)

theorem laidOut_pair : LaidOut .gpu pairBuffer.directory ((run .empty pair).store.arena pairBuffer.arena) :=
  (wellFormed_run wellFormed_empty pair).1.laidOut buffers_pair

/-- a multiplication of the vector compiled by a fresh executor with the local size 4: its one step has the first handle
of the device and one workgroup, and it leaves the words that the commands come to -/
theorem compile_pair (words : Array UInt32) {text : String} {layout : Signature} {g : Shader.Group}
    (hplan : plan pairBuffer.directory ⟨[text]⟩ = .ok (layout, [g])) (hwork : g.workSize = 2)
    (hwords : ((Command.resolveAll pairBuffer.directory ⟨[text]⟩).toOption.map fun rs =>
      (Command.applyAll .gpu rs ((run .empty pair).store.arena pairBuffer.arena)).words) = some words) :
    ∃ step e, Executor.compile pairBuffer.directory ⟨[text]⟩ (fresh fingerprintOf 4) = .ok ⟨[step], layout, 4⟩ e ∧
      step.shader = ⟨0⟩ ∧ step.workgroups = 1 ∧
      (e.execute ⟨[step], layout, 4⟩ pairBuffer (run .empty pair).store 1).result = .ok () ∧
      ((e.execute ⟨[step], layout, 4⟩ pairBuffer (run .empty pair).store 1).store.arena pairBuffer.arena).words =
        words := by
  have hhonest : (fresh fingerprintOf 4).Honest := honest_fresh fingerprintOf (by decide)
  have hls : (fresh fingerprintOf 4).localSize = 4 := localSize_fresh fingerprintOf (by decide)
  obtain ⟨step, e, hc, hshader, hgroups⟩ := compile_single hhonest rfl laidOut_pair hplan
  rw [hls, hwork] at hgroups
  rw [hls] at hc
  obtain ⟨rs, -, hrs, -, hresult, hstore⟩ :=
    execute_eq_applyAll (s := (run .empty pair).store) hhonest laidOut_pair hc (fun _ _ hp => hp) 1
  rw [hrs] at hwords
  have hlt : pairBuffer.arena.index < (run .empty pair).store.arenas.size := by decide +kernel
  refine ⟨step, e, hc, hshader, hgroups, hresult, ?_⟩
  rw [hstore, Store.arena_put_self hlt]
  exact Option.some.inj hwords

/-- the items that the multiplications of `pair` rely on -/
def pairLayout : Signature := Signature.empty.record "a" ⟨.vector, 0, [2]⟩

/-- the group of a multiplication of the vector of `pair` -/
def pairGroup (text : String) (factor : Single) : Shader.Group := .single ⟨text, .scale 0 0 2 factor, 2⟩

theorem plan_double : plan pairBuffer.directory ⟨["a = multiply a 2"]⟩ =
    .ok (pairLayout, [pairGroup "a = multiply a 2" ⟨0x40000000⟩]) :=
  toOption_eq_some.1 (by decide +kernel)

theorem plan_triple : plan pairBuffer.directory ⟨["a = multiply a 3"]⟩ =
    .ok (pairLayout, [pairGroup "a = multiply a 3" ⟨0x40400000⟩]) :=
  toOption_eq_some.1 (by decide +kernel)

end Session

/-! ## Isolation -/

namespace Gpu.Executor

open Session

variable {d : Directory} {description : Description} {c : Computation} {e : Executor HostDevice}

/-- **Isolation.** Take what an executor of any history compiled, and whatever was done with the executor afterwards. A
fresh executor with the local size it had then compiles the description against the same directory, too; and executing
the two on a buffer, as often as one likes, ends in the same way, begins as many dispatches and leaves the same store,
in which only the arena of the buffer can have changed. -/
theorem execute_eq_fresh (history : History) (hc : Executor.compile d description history.executor = .ok c e)
    (later : List Use) (fingerprint : String → UInt64) :
    ∃ c₀ e₀, Executor.compile d description (fresh fingerprint history.executor.localSize) = .ok c₀ e₀ ∧
      ∀ (buf : Buffer .gpu) (s : Store) (n : Nat),
        ((e.uses later).execute c buf s n).result = (e₀.execute c₀ buf s n).result ∧
        ((e.uses later).execute c buf s n).begun = (e₀.execute c₀ buf s n).begun ∧
        ((e.uses later).execute c buf s n).store = (e₀.execute c₀ buf s n).store ∧
        ∀ id ≠ buf.arena, ((e.uses later).execute c buf s n).store.arena id = s.arena id := by
  have hhonest := history.honest
  have hls := localSize_fresh fingerprint hhonest.positive
  rcases compile_matches hhonest (honest_fresh fingerprint hhonest.bounded) hls.symm d description with
    ⟨c', e', c₀, e₀, hc', hc₀, hlayout, -, hsteps⟩ | ⟨f, e', e₀, hc', -⟩
  · cases hc.symm.trans hc'
    have hlater := later_uses (follows_of_compile hhonest hc).honest later
    have hmatch := hsteps.imp fun _ _ hstep => hstep.extends hlater.programs fun _ _ hp => hp
    refine ⟨c₀, e₀, hc₀, ?_⟩
    intro buf s n
    obtain ⟨-, hstore, hbegun, hresult⟩ := execute_matches hlayout hmatch buf s n
    exact ⟨hresult, hbegun, hstore, fun id hne => arena_execute_of_ne _ c buf s n hne⟩
  · cases hc.symm.trans hc'

/-- an executor on which other descriptions were compiled, one of them in vain, before its local size was set -/
def busy : History :=
  ⟨.empty, some "7", fingerprintOf, [.compile pairBuffer.directory ⟨["a = multiply a 3"]⟩,
    .compile pairBuffer.directory ⟨["a = multiply b 3"]⟩, .submit [1, 2, 3, 4], .resize 4]⟩

theorem execute_eq_fresh_sample : ∃ (c : Computation) (e : Executor HostDevice),
    Executor.compile pairBuffer.directory ⟨["a = multiply a 2"]⟩ busy.executor = .ok c e ∧
      ((e.uses [.shader "void", .resize 1, .submit [5]]).execute c pairBuffer (run .empty pair).store 1).result =
        .ok () ∧
      (((e.uses [.shader "void", .resize 1, .submit [5]]).execute c pairBuffer (run .empty pair).store 1).store.arena
        pairBuffer.arena).words = #[0x40000000, 0x40800000] := by
  obtain ⟨steps, e, hc, -, -⟩ := compile_eq_ok busy.honest laidOut_pair plan_double
  obtain ⟨c₀, e₀, hc₀, hsame⟩ := execute_eq_fresh busy hc [.shader "void", .resize 1, .submit [5]] fingerprintOf
  obtain ⟨step, e₁, hc₁, -, -, hresult, hwords⟩ :=
    compile_pair #[0x40000000, 0x40800000] plan_double rfl (by decide +kernel)
  have hls : busy.executor.localSize = 4 := rfl
  rw [hls] at hc₀
  cases hc₀.symm.trans hc₁
  obtain ⟨hend, -, hstore, -⟩ := hsame pairBuffer (run .empty pair).store 1
  refine ⟨_, e, hc, hend.trans hresult, ?_⟩
  rw [hstore]
  exact hwords

/-- **Another executor.** Take what an executor of any history compiled and execute it on any other one. If that fails,
nothing was changed. If the handles give the programs of the sources there as well, it ends as on the executor that
compiled it, whatever was done with that one since. -/
theorem execute_elsewhere (history : History) (hc : Executor.compile d description history.executor = .ok c e)
    (later : List Use) (other : Executor HostDevice) (buf : Buffer .gpu) (s : Store) (n : Nat) :
    (∀ f, (other.execute c buf s n).result = .error f → (other.execute c buf s n).store = s) ∧
      ((∀ step ∈ c.steps, step.Holds other.device.programs) →
        (other.execute c buf s n).result = ((e.uses later).execute c buf s n).result ∧
        (other.execute c buf s n).store = ((e.uses later).execute c buf s n).store) := by
  refine ⟨fun f hf => store_execute_of_error hf, ?_⟩
  intro hother
  have hhonest := history.honest
  have hlater := later_uses (follows_of_compile hhonest hc).honest later
  have hmatch : List.Forall₂ (Step.Matches other.device.programs (e.uses later).device.programs) c.steps c.steps :=
    List.forall₂_same.2 fun step hstep =>
      ⟨⟨step.shader, rfl⟩, hother step hstep, (holds_of_compile hhonest hc step hstep).extends hlater.programs⟩
  obtain ⟨-, hstore, -, hresult⟩ := execute_matches rfl hmatch buf s n
  exact ⟨hresult, hstore⟩

/-- on an executor that compiled the description first as well, every handle gives the program of its source -/
theorem execute_elsewhere_sample : ∃ (c : Computation) (e : Executor HostDevice),
    Executor.compile pairBuffer.directory ⟨["a = multiply a 2"]⟩ (fresh fingerprintOf 4) = .ok c e ∧
      ((e.uses [.compile pairBuffer.directory ⟨["a = multiply a 3"]⟩]).execute c pairBuffer
        (run .empty pair).store 1).result = .ok () := by
  obtain ⟨step, e, hc, -, -, hresult, -⟩ :=
    compile_pair #[0x40000000, 0x40800000] plan_double rfl (by decide +kernel)
  have hhonest : (fresh fingerprintOf 4).Honest := honest_fresh fingerprintOf (by decide)
  have hlater := later_uses (follows_of_compile hhonest hc).honest
    [.compile pairBuffer.directory ⟨["a = multiply a 3"]⟩]
  have hhold := fun st hst => (holds_of_compile hhonest hc st hst).extends hlater.programs
  obtain ⟨-, hsame⟩ := execute_elsewhere ⟨.empty, none, fingerprintOf, [.resize 4]⟩ hc []
    (e.uses [.compile pairBuffer.directory ⟨["a = multiply a 3"]⟩]) pairBuffer (run .empty pair).store 1
  exact ⟨_, e, hc, (hsame hhold).1.trans hresult⟩

/-- what was compiled on one executor runs on another one with the shader that has its handle there: the elements are
tripled instead of doubled, and the execution ends well -/
theorem execute_elsewhere_silent : ∃ (c d : Computation) (e₁ e₂ : Executor HostDevice),
    (run .empty pair).buffers[0]? = some ⟨.gpu, pairBuffer⟩ ∧
      Executor.compile pairBuffer.directory ⟨["a = multiply a 2"]⟩ (fresh fingerprintOf 4) = .ok c e₁ ∧
      Executor.compile pairBuffer.directory ⟨["a = multiply a 3"]⟩ (fresh fingerprintOf 4) = .ok d e₂ ∧
      (e₁.execute c pairBuffer (run .empty pair).store 1).result = .ok () ∧
      ((e₁.execute c pairBuffer (run .empty pair).store 1).store.arena pairBuffer.arena).words =
        #[0x40000000, 0x40800000] ∧
      (e₂.execute c pairBuffer (run .empty pair).store 1).result = .ok () ∧
      ((e₂.execute c pairBuffer (run .empty pair).store 1).store.arena pairBuffer.arena).words =
        #[0x40400000, 0x40c00000] := by
  obtain ⟨step, e₁, hc, hshader, hgroups, hresult, hwords⟩ :=
    compile_pair #[0x40000000, 0x40800000] plan_double rfl (by decide +kernel)
  obtain ⟨step', e₂, hd, hshader', hgroups', hresult', hwords'⟩ :=
    compile_pair #[0x40400000, 0x40c00000] plan_triple rfl (by decide +kernel)
  have hlayout : (Computation.mk [step] pairLayout 4).layout = (Computation.mk [step'] pairLayout 4).layout := rfl
  have hsame := execute_congr (e := e₂) hlayout
    (.cons ⟨hshader.trans hshader'.symm, hgroups.trans hgroups'.symm⟩ .nil) pairBuffer (run .empty pair).store 1
  refine ⟨_, _, e₁, e₂, buffers_pair, hc, hd, hresult, hwords, hsame.1.trans hresult', ?_⟩
  rw [hsame.2]
  exact hwords'

end Gpu.Executor

end ArrayEngine
