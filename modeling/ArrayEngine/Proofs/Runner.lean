/-
What a backend compiles and executes, said for both backends at once, and that what is compiled cannot fail.

An executor over the host device has a history: the device and the setting that it was made with, and everything that
was done with it since. `Use` is one thing that can be done with it, on its device directly, too. A `Runner` is what
compiles for a backend, the host itself or an executor with a history; what it compiles is executed after any further
uses of the executor.
- `later_use` is the step and `later_uses` the run: an executor stays honest and keeps the programs of its device;
- `exists_compile`: what compiles is what resolves and, on a device, lowers;
- `execute_eq`: an execution has the effects of the commands in order, `n` times over, and ends without a failure;
- `execute_ok`: so once the layout matches, nothing can fail.
-/
import ArrayEngine.Proofs.Backends

namespace ArrayEngine

open Shader (Snippet)

/-! ## Local sizes -/

theorem Size.lt_of_read {cs : List Char} {n : Nat} (h : read cs = some n) : n < bound := by
  simp only [read] at h
  split_ifs at h with _ hn
  cases h
  exact hn

/-- whatever the setting is, the local size is a positive size -/
theorem LocalSize.ofSetting_bounds (setting : Option String) :
    0 < ofSetting setting ∧ ofSetting setting < Size.bound := by
  unfold ofSetting
  cases h : setting.bind fun s => readPositive s.toList with
  | none => decide
  | some n =>
    obtain ⟨s, -, hs⟩ := Option.bind_eq_some_iff.1 h
    obtain ⟨hread, hpos⟩ := Option.filter_eq_some_iff.1 hs
    exact ⟨of_decide_eq_true hpos, Size.lt_of_read hread⟩

/-! ## Histories -/

namespace Gpu

namespace Executor

/-- something that is done with an executor: another local size, a description compiled, a computation run, or an
operation of its device -/
inductive Use where
  | resize (localSize : UInt64)
  | compile (d : Directory) (description : Description)
  | execute (c : Computation) (buf : Buffer .gpu) (s : Store) (n : Nat)
  | submit (bytes : List UInt8)
  | shader (source : String)
  | dispatch (h : ShaderHandle) (workgroups : Nat)
  | retrieve (size : Nat)

/-- the executor afterwards, whether it succeeds or not -/
def use (e : Executor HostDevice) : Use → Executor HostDevice
  | .resize localSize => e.withLocalSize localSize.toNat
  | .compile d description => stateAfter (Executor.compile d description e)
  | .execute c buf s n => (e.execute c buf s n).executor
  | .submit bytes => stateAfter (onDevice (Device.submit bytes) e)
  | .shader source => stateAfter (onDevice (Device.compile source) e)
  | .dispatch h workgroups => stateAfter (onDevice (Device.dispatch h workgroups) e)
  | .retrieve size => stateAfter (onDevice (Device.retrieve size) e)

def uses (e : Executor HostDevice) (us : List Use) : Executor HostDevice := us.foldl use e

variable {e : Executor HostDevice}

/-- an operation of the device that keeps its programs -/
theorem Honest.later_onDevice (h : e.Honest) {α : Type} {act : EStateM Failure HostDevice α}
    (hact : (stateAfter (act e.device)).Extends e.device) : (stateAfter (onDevice act e)).Later e := by
  have hlater := h.later_device hact
  revert hlater
  unfold onDevice
  cases act e.device <;> exact id

/-- **One use.** The executor stays honest and keeps the programs of its device. -/
theorem later_use (h : e.Honest) (u : Use) : (e.use u).Later e := by
  cases u with
  | resize localSize => exact ⟨honest_withLocalSize h localSize.toNat_lt, fun _ _ hp => hp⟩
  | compile d description => exact (follows_compile h d description).toLater
  | execute c buf s n => exact later_execute h c buf s n
  | submit bytes => exact h.later_onDevice (HostDevice.extends_of_eq (programs_submit bytes e.device))
  | shader source => exact h.later_onDevice (extends_compile source e.device)
  | dispatch handle workgroups =>
    exact h.later_onDevice (HostDevice.extends_of_eq (programs_dispatch handle workgroups e.device))
  | retrieve size =>
    exact h.later_onDevice (HostDevice.extends_of_eq (congrArg _ (stateAfter_retrieve size e.device)))

/-- **All uses.** So it does whatever is done with it. -/
theorem later_uses (h : e.Honest) (us : List Use) : (e.uses us).Later e := by
  induction us generalizing e with
  | nil => exact h.follows_self.toLater
  | cons u us ih =>
    have hu := later_use h u
    exact hu.trans (ih hu.honest)

end Executor

/-- how an executor came about: what it was made with, and what was done with it since -/
structure History where
  device : HostDevice
  setting : Option String
  fingerprint : String → UInt64
  uses : List Executor.Use

/-- the executor with a history. It is made with the local size of the setting and no shaders -/
def History.executor (h : History) : Executor HostDevice :=
  Executor.uses ⟨h.device, LocalSize.ofSetting h.setting, h.fingerprint, []⟩ h.uses

theorem History.honest (h : History) : h.executor.Honest := by
  obtain ⟨hpos, hbound⟩ := LocalSize.ofSetting_bounds h.setting
  exact (Executor.later_uses ⟨hpos, hbound, fun _ hentry => absurd hentry List.not_mem_nil⟩ h.uses).honest

end Gpu

/-! ## Runners -/

/-- what compiles for a backend: the host, or an executor with a history -/
inductive Runner : Backend → Type
  | host : Runner .cpu
  | device (history : Gpu.History) : Runner .gpu

/-- a compiled description, on a device with the executor that compiled it -/
inductive Compiled : Backend → Type
  | host (c : Cpu.Computation) : Compiled .cpu
  | device (c : Gpu.Computation) (e : Gpu.Executor HostDevice) : Compiled .gpu

/-- what an execution leaves, and how it ended -/
structure Ended where
  store : Store
  result : Except Failure Unit

variable {b : Backend}

/-- a description compiled against a directory -/
def Runner.compile (r : Runner b) (d : Directory) (description : Description) : Except Failure (Compiled b) :=
  match r with
  | .host => do return .host (← Cpu.compile d description)
  | .device history =>
    match Gpu.Executor.compile d description history.executor with
    | .ok c e => .ok (.device c e)
    | .error f _ => .error f

namespace Compiled

/-- the items that a compiled description relies on -/
def layout : Compiled b → Signature
  | host c => c.layout
  | device c _ => c.layout

/-- the local size that the work of a dispatch is divided by, on a device -/
def localSize? : Compiled b → Option Nat
  | host _ => none
  | device c _ => some c.localSize

/-- a compiled description executed `n` times, after further uses of the executor that compiled it -/
def execute (x : Compiled b) (later : List Gpu.Executor.Use) (buf : Buffer b) (s : Store) (n : Nat) : Ended :=
  match b, x, buf with
  | _, host c, buf =>
    let done := Cpu.execute c buf s n
    ⟨done.store, done.result⟩
  | _, device c e, buf =>
    let done := (e.uses later).execute c buf s n
    ⟨done.store, done.result⟩

end Compiled

/-- whether a backend has a step for every command: a device must be able to lower them -/
def Command.Accepted : Backend → List Resolved → Prop
  | .cpu, _ => True
  | .gpu, rs => ∃ snippets, rs.mapM Snippet.ofResolved = .ok snippets

theorem Command.accepted_nil : Accepted b [] := by
  cases b with
  | cpu => trivial
  | gpu => exact ⟨[], rfl⟩

theorem Command.accepted_append {rs rs' : List Resolved} :
    Accepted b (rs ++ rs') ↔ Accepted b rs ∧ Accepted b rs' := by
  cases b with
  | cpu => exact (and_self_iff).symm
  | gpu =>
    simp only [Accepted, mapM_append_eq_ok]
    refine ⟨?_, ?_⟩
    · intro h
      obtain ⟨_, ss, ss', hs, hs', -⟩ := h
      exact ⟨⟨ss, hs⟩, ss', hs'⟩
    · intro h
      obtain ⟨⟨ss, hs⟩, ss', hs'⟩ := h
      exact ⟨_, ss, ss', hs, hs', rfl⟩

namespace Runner

variable {r : Runner b} {x : Compiled b} {d d' : Directory} {description : Description} {a : Arena}

theorem compile_device_eq_ok {history : Gpu.History} {x : Compiled .gpu} :
    (device history).compile d description = .ok x ↔
      ∃ c e, Gpu.Executor.compile d description history.executor = .ok c e ∧ .device c e = x := by
  cases hrun : Gpu.Executor.compile d description history.executor with
  | ok c e => simp [compile, hrun]
  | error f e => simp [compile, hrun]

theorem compile_host_eq_ok {x : Compiled .cpu} :
    host.compile d description = .ok x ↔ ∃ c, Cpu.compile d description = .ok c ∧ .host c = x := by
  simp only [compile, bind_eq_ok, pure_eq_ok]

/-- **Compiling.** What compiles is what resolves and is accepted by the backend, whatever the executor is. -/
theorem exists_compile (r : Runner b) (h : LaidOut b d a) :
    (∃ x, r.compile d description = .ok x) ↔
      ∃ rs, Command.resolveAll d description = .ok rs ∧ Command.Accepted b rs := by
  cases r with
  | host => simp [compile_host_eq_ok, Cpu.compile_eq_ok, Command.Accepted]
  | device history =>
    have hiff : (∃ c e, Gpu.Executor.compile d description history.executor = .ok c e) ↔ _ :=
      Gpu.Executor.exists_compile history.honest h
    simp only [compile_device_eq_ok, Command.Accepted]
    refine ⟨?_, ?_⟩
    · intro hok
      obtain ⟨x, c, e, hc, -⟩ := hok
      obtain ⟨rs, snippets, hrs, hs⟩ := hiff.1 ⟨c, e, hc⟩
      exact ⟨rs, hrs, snippets, hs⟩
    · intro hok
      obtain ⟨rs, hrs, snippets, hs⟩ := hok
      obtain ⟨c, e, hc⟩ := hiff.2 ⟨rs, snippets, hrs, hs⟩
      exact ⟨_, c, e, hc, rfl⟩

/-- where the layout matches, a description could have been compiled just as well -/
theorem compile_of_verify (hok : r.compile d description = .ok x) (hv : x.layout.verify d' = .ok ()) :
    r.compile d' description = .ok x := by
  cases r with
  | host =>
    obtain ⟨c, hc, rfl⟩ := compile_host_eq_ok.1 hok
    exact compile_host_eq_ok.2 ⟨c, Cpu.compile_of_verify hc hv, rfl⟩
  | device history =>
    obtain ⟨c, e, hc, rfl⟩ := compile_device_eq_ok.1 hok
    exact compile_device_eq_ok.2 ⟨c, e, Gpu.Executor.compile_of_verify hc hv, rfl⟩

/-- **Executing.** An execution has the effects of the commands in order, `n` times over, and ends without a failure. -/
theorem execute_eq {buf : Buffer b} {s : Store} {rs : List Resolved}
    (h : LaidOut b buf.directory (s.arena buf.arena)) (hok : r.compile buf.directory description = .ok x)
    (hrs : Command.resolveAll buf.directory description = .ok rs) (later : List Gpu.Executor.Use) (n : Nat) :
    x.execute later buf s n = ⟨s.put buf.arena ((Command.applyAll b rs)^[n] (s.arena buf.arena)), .ok ()⟩ := by
  cases r with
  | host =>
    obtain ⟨c, hc, rfl⟩ := compile_host_eq_ok.1 hok
    obtain ⟨hexec, -⟩ := Cpu.execute_eq (n := n) hc (Cpu.verify_self hc) h
    obtain ⟨rs', hrs', rfl⟩ := Cpu.compile_eq_ok.1 hc
    obtain rfl := Except.ok.inj (hrs.symm.trans hrs')
    simp only [Compiled.execute, hexec]
    rfl
  | device history =>
    obtain ⟨c, e, hc, rfl⟩ := compile_device_eq_ok.1 hok
    have hhonest := (Gpu.Executor.follows_of_compile history.honest hc).honest
    have hlater := Gpu.Executor.later_uses hhonest later
    obtain ⟨rs', -, hrs', -, hresult, hstore⟩ :=
      Gpu.Executor.execute_eq_applyAll history.honest h hc hlater.programs n
    obtain rfl := Except.ok.inj (hrs.symm.trans hrs')
    simp only [Compiled.execute, hresult, hstore]

/-- the layout of a compiled description matches the directory that it was compiled against -/
theorem verify_self (hok : r.compile d description = .ok x) : x.layout.verify d = .ok () := by
  cases r with
  | host =>
    obtain ⟨c, hc, rfl⟩ := compile_host_eq_ok.1 hok
    exact Cpu.verify_self hc
  | device history =>
    obtain ⟨c, e, hc, rfl⟩ := compile_device_eq_ok.1 hok
    obtain ⟨gs, hplan⟩ := Gpu.Executor.plan_of_compile hc
    obtain ⟨rs, -, hrs, -, -, hlayout⟩ := Gpu.plan_eq_ok.1 hplan
    rw [Compiled.layout, hlayout]
    exact Command.verify_resolved hrs

/-- the local size that shaders are compiled with is a positive size -/
theorem localSize_bounds (hok : r.compile d description = .ok x) :
    ∀ localSize ∈ x.localSize?, 0 < localSize ∧ localSize < Size.bound := by
  cases r with
  | host =>
    obtain ⟨c, -, rfl⟩ := compile_host_eq_ok.1 hok
    intro _ hls
    cases hls
  | device history =>
    obtain ⟨c, e, hc, rfl⟩ := compile_device_eq_ok.1 hok
    have hhonest := (Gpu.Executor.follows_of_compile history.honest hc).honest
    obtain ⟨layout, gs, steps, -, -, rfl⟩ := Gpu.Executor.compile_iff.1 hc
    intro _ hls
    cases hls
    exact ⟨hhonest.positive, hhonest.bounded⟩

end Runner

namespace Session

variable {δ : Type} [Device δ] [LawfulDevice δ]

/-- **Compiled descriptions cannot fail.** Take a description that compiled against some directory, on the host or on an
executor of any history, and a buffer of any session whose directory the layout accepts. However often it is executed
there, and whatever was done with the executor in between, no step fails; and the local size that work is divided by is
not zero. -/
theorem execute_ok (actions : List (Action δ)) {i : Nat} {buf : Buffer b}
    (hx : (run .empty actions).buffers[i]? = some ⟨b, buf⟩) {r : Runner b} {d : Directory} {description : Description}
    {x : Compiled b} (hc : r.compile d description = .ok x) (hv : x.layout.verify buf.directory = .ok ())
    (later : List Gpu.Executor.Use) (n : Nat) :
    (x.execute later buf (run .empty actions).store n).result = .ok () ∧
      ∀ localSize ∈ x.localSize?, 0 < localSize ∧ localSize < Size.bound := by
  have hlaid := (wellFormed_run wellFormed_empty actions).1.laidOut hx
  have hc' := Runner.compile_of_verify hc hv
  obtain ⟨rs, hrs, -⟩ := (r.exists_compile hlaid).1 ⟨x, hc'⟩
  refine ⟨?_, Runner.localSize_bounds hc⟩
  rw [Runner.execute_eq hlaid hc' hrs]

/-- an executor that was made with a setting and an unusual local size later on -/
def resized : Gpu.History := ⟨.empty, some "7", Gpu.fingerprintOf, [.resize 0xffffffffffffffff]⟩

theorem execute_ok_sample : ∃ (cpu : Buffer .cpu) (gpu : Buffer .gpu) (x : Compiled .cpu) (y : Compiled .gpu),
    Runner.host.compile cpu.directory ⟨["v = add v v"]⟩ = .ok x ∧
      (x.execute [] cpu (run .empty sample).store 3).result = .ok () ∧
      (Runner.device resized).compile gpu.directory ⟨["w = add w w"]⟩ = .ok y ∧
      (y.execute [.resize 0, .submit [0]] gpu (run .empty sample).store 3).result = .ok () := by
  have hwf := (wellFormed_run wellFormed_empty sample).1
  have hresolves : (((run .empty sample).buffer? .cpu 0).any fun cpu =>
      (Command.resolveAll cpu.directory ⟨["v = add v v"]⟩).toOption.isSome) = true := by decide +kernel
  have hlowers : (((run .empty sample).buffer? .gpu 1).any fun gpu =>
      (Command.resolveAll gpu.directory ⟨["w = add w w"]⟩ >>= fun rs =>
        rs.mapM Snippet.ofResolved).toOption.isSome) = true := by decide +kernel
  obtain ⟨cpu, hcpu, hrs⟩ := (Option.any_eq_true _ _).1 hresolves
  obtain ⟨gpu, hgpu, hsnippets⟩ := (Option.any_eq_true _ _).1 hlowers
  obtain ⟨rs, hrs⟩ := Option.isSome_iff_exists.1 hrs
  obtain ⟨snippets, hsnippets⟩ := Option.isSome_iff_exists.1 hsnippets
  obtain ⟨rs', hrs', hs⟩ := bind_eq_ok.1 (toOption_eq_some.1 hsnippets)
  have hcpu := buffers_of_buffer? hcpu
  have hgpu := buffers_of_buffer? hgpu
  obtain ⟨x, hx⟩ := (Runner.host.exists_compile (hwf.laidOut hcpu)).2 ⟨rs, toOption_eq_some.1 hrs, trivial⟩
  obtain ⟨y, hy⟩ := ((Runner.device resized).exists_compile (hwf.laidOut hgpu)).2 ⟨rs', hrs', snippets, hs⟩
  exact ⟨cpu, gpu, x, y, hx, (execute_ok sample hcpu hx (Runner.verify_self hx) [] 3).1, hy,
    (execute_ok sample hgpu hy (Runner.verify_self hy) [.resize 0, .submit [0]] 3).1⟩

end Session

end ArrayEngine
