/-
That an execution on the host device does what the commands come to.

- `Honest` is the invariant of executors: a kept shader is the program of its source. Whatever an executor does, it
  stays honest and keeps the programs of its device (`Later`). `Reached` gives the executors that a program can come to
  have, and they are honest (`Reached.honest`);
- `mapM_buildStep_eq_ok`: an honest executor finds a program for every group, that of the shader it renders for it;
- `times_dispatch`: the dispatches of these programs, `n` times over, leave what the commands leave;
- `execute_eq_applyAll`: so a description that compiles is executed by the executor that compiled it, and by every later
  one, with the effects of its commands in order, `n` times over.
-/
import ArrayEngine.Proofs.DeviceMemory
import ArrayEngine.Proofs.Document

namespace ArrayEngine

open Shader (Call Snippet Group)

/-! ## Executors -/

/-- a device with all programs of another one under the same handles -/
def HostDevice.Extends (d' d : HostDevice) : Prop :=
  ∀ (i : Nat) (p : Program), d.programs[i]? = some p → d'.programs[i]? = some p

theorem HostDevice.Extends.trans {d d' d'' : HostDevice} (h : d'.Extends d) (h' : d''.Extends d') : d''.Extends d :=
  fun i p hp => h' i p (h i p hp)

theorem HostDevice.extends_of_eq {d d' : HostDevice} (h : d'.programs = d.programs) : d'.Extends d := by
  intro i p hp
  rw [h]
  exact hp

/-- one more program -/
theorem HostDevice.extends_push (d : HostDevice) (p : Program) (m : Option DeviceMemory) :
    HostDevice.Extends ⟨m, d.programs.push p⟩ d := by
  intro i q hq
  obtain ⟨hi, -⟩ := Array.getElem?_eq_some_iff.1 hq
  exact (Array.getElem?_push_lt hi).trans (Array.getElem?_eq_getElem hi ▸ hq)

/-- the bytes of an arena are taken over as its numbers -/
theorem HostDevice.submit_bytes (a : Arena) (d : HostDevice) :
    Device.submit a.bytes d = .ok () (⟨some a.memory, d.programs⟩ : HostDevice) := by
  have hwhole : a.bytes.length % Size.wordBytes = 0 := by
    rw [a.length_bytes]
    exact Nat.mul_mod_right _ _
  simp only [Device.submit, Run.attempt, HostDevice.submit, if_pos hwhole, a.toArray_toWords_bytes]

/-- and the numbers are given back as bytes -/
theorem HostDevice.retrieve_memory (a : Arena) (programs : Array Program) :
    Device.retrieve a.byteSize (⟨some a.memory, programs⟩ : HostDevice) =
      .ok (Bytes.ofWords (a.memory.toList.map Single.bits)) ⟨some a.memory, programs⟩ := by
  simp only [Device.retrieve, HostDevice.retrieve, a.size_memory, Arena.byteSize, if_true]
  rfl

/-- when a dispatch succeeds, and what it has done then -/
theorem HostDevice.dispatch_eq_ok {d d' : HostDevice} {h : ShaderHandle} {workgroups : Nat} :
    d.dispatch h workgroups = .ok d' ↔
      ∃ p m k m', d.programs[h.index]? = some p ∧ d.memory = some m ∧ checkExtents m.size p.calls = .ok () ∧
        Size.mul workgroups p.localSize = .ok k ∧ DeviceMemory.run p.calls k m = .ok m' ∧
        (⟨some m', d.programs⟩ : HostDevice) = d' := by
  unfold dispatch
  cases d.programs[h.index]? with
  | none => simp
  | some p =>
    cases d.memory with
    | none => simp
    | some m =>
      simp only [bind_eq_ok, lift_fault_eq_ok, pure_eq_ok]
      refine ⟨?_, ?_⟩
      · intro hrun
        obtain ⟨_, hcheck, k, hk, m', hm', rfl⟩ := hrun
        exact ⟨p, m, k, m', rfl, rfl, hcheck, hk, hm', rfl⟩
      · intro hrun
        obtain ⟨_, _, k, m', hp, hm, hcheck, hk, hm', rfl⟩ := hrun
        cases hp
        cases hm
        exact ⟨(), hcheck, k, hk, m', hm', rfl⟩

namespace Gpu

/-- a step that runs a group: a program with its calls, in whole workgroups -/
structure Step.Runs (programs : Array Program) (localSize : Nat) (g : Group) (step : Step) : Prop where
  program : programs[step.shader.index]? = some ⟨localSize, g.calls⟩
  workgroups : step.workgroups = (g.workSize + localSize - 1) / localSize

theorem Step.Runs.extends {d d' : HostDevice} {localSize : Nat} {g : Group} {step : Step} (hd : d'.Extends d)
    (h : Step.Runs d.programs localSize g step) : Step.Runs d'.programs localSize g step :=
  ⟨hd _ _ h.program, h.workgroups⟩

namespace Executor

/-- an executor whose local size is a positive size and whose kept shaders are the programs of their sources -/
structure Honest (e : Executor HostDevice) : Prop where
  positive : 0 < e.localSize
  bounded : e.localSize < Size.bound
  kept : ∀ entry ∈ e.cache, ∃ p, Program.parse entry.source = .ok p ∧ e.device.programs[entry.shader.index]? = some p

/-- an executor that comes after another one: as honest, with all programs of it -/
structure Later (e' e : Executor HostDevice) : Prop where
  honest : e'.Honest
  programs : e'.device.Extends e.device

/-- one with the same local size, too -/
structure Follows (e' e : Executor HostDevice) : Prop extends Later e' e where
  localSize : e'.localSize = e.localSize

variable {e e' : Executor HostDevice} {source : String} {p : Program}

theorem Later.trans {e'' : Executor HostDevice} (h : e'.Later e) (h' : e''.Later e') : e''.Later e :=
  ⟨h'.honest, h.programs.trans h'.programs⟩

theorem Honest.follows_self (h : e.Honest) : e.Follows e := ⟨⟨h, fun _ _ hp => hp⟩, rfl⟩

theorem Follows.trans {e'' : Executor HostDevice} (h : e'.Follows e) (h' : e''.Follows e') : e''.Follows e :=
  ⟨h.toLater.trans h'.toLater, h'.localSize.trans h.localSize⟩

/-- the executor with another device that has all its programs -/
theorem Honest.later_device (h : e.Honest) {d : HostDevice} (hd : d.Extends e.device) :
    Later { e with device := d } e := by
  refine ⟨⟨h.positive, h.bounded, ?_⟩, hd⟩
  intro entry hentry
  obtain ⟨p, hp, hheld⟩ := h.kept entry hentry
  exact ⟨p, hp, hd _ p hheld⟩

/-- the executor with a program compiled and kept -/
def learn (e : Executor HostDevice) (source : String) (p : Program) : Executor HostDevice :=
  ({ e with device := { e.device with programs := e.device.programs.push p } }).keep source ⟨e.device.programs.size⟩

theorem getElem?_learn (e : Executor HostDevice) (source : String) (p : Program) :
    (e.learn source p).device.programs[e.device.programs.size]? = some p := Array.getElem?_push_size

theorem follows_learn (h : e.Honest) (hp : Program.parse source = .ok p) : (e.learn source p).Follows e := by
  have hext : (e.learn source p).device.Extends e.device := e.device.extends_push p e.device.memory
  refine ⟨⟨⟨h.positive, h.bounded, ?_⟩, hext⟩, rfl⟩
  intro entry hentry
  rcases List.mem_cons.1 hentry with rfl | hentry
  · exact ⟨p, hp, e.getElem?_learn source p⟩
  · obtain ⟨q, hq, hheld⟩ := h.kept entry (List.mem_of_mem_filter hentry)
    exact ⟨q, hq, hext _ q hheld⟩

/-- a shader is only answered from the kept ones if its source is the same -/
theorem Honest.of_cached (h : e.Honest) {shader : ShaderHandle} (hc : e.cached? source = some shader) :
    ∃ p, Program.parse source = .ok p ∧ e.device.programs[shader.index]? = some p := by
  unfold cached? at hc
  split at hc
  · next entry hfind =>
    split_ifs at hc with hs
    · cases hc
      rw [← hs]
      exact h.kept entry (List.mem_of_find?_eq_some hfind)
  · cases hc

theorem obtain_eq (e : Executor HostDevice) (source : String) :
    obtain source e = match e.cached? source with
      | some shader => .ok shader e
      | none => match Program.parse source with
        | .ok p => .ok ⟨e.device.programs.size⟩ (e.learn source p)
        | .error f => .error (.refused f) e := by
  cases hc : e.cached? source with
  | some shader =>
    rw [obtain, get_bind, hc]
    rfl
  | none =>
    cases hp : Program.parse source with
    | ok p =>
      have hcompile : onDevice (Device.compile source) e = .ok ⟨e.device.programs.size⟩
          { e with device := ⟨e.device.memory, e.device.programs.push p⟩ } := by
        simp only [onDevice, Device.compile, HostDevice.compile_of_ok hp]
      rw [obtain, get_bind, hc]
      exact bind_of_ok hcompile _
    | error f =>
      have hcompile : onDevice (Device.compile source) e = .error (.refused f) e := by
        simp only [onDevice, Device.compile, HostDevice.compile_of_error hp]
      rw [obtain, get_bind, hc]
      exact bind_of_error hcompile _

/-- an honest executor answers a shader that runs the program of the source, or refuses the source and stays as it is -/
theorem obtain_cases (h : e.Honest) (source : String) :
    (∃ p shader e', Program.parse source = .ok p ∧ obtain source e = .ok shader e' ∧ e'.Follows e ∧
      e'.device.programs[shader.index]? = some p) ∨
    ∃ f, Program.parse source = .error f ∧ obtain source e = .error (.refused f) e := by
  rw [obtain_eq]
  cases hc : e.cached? source with
  | some shader =>
    obtain ⟨p, hp, hheld⟩ := h.of_cached hc
    exact .inl ⟨p, shader, e, hp, rfl, h.follows_self, hheld⟩
  | none =>
    cases hp : Program.parse source with
    | ok p => exact .inl ⟨p, _, _, rfl, rfl, follows_learn h hp, e.getElem?_learn source p⟩
    | error f => exact .inr ⟨f, rfl, rfl⟩

theorem buildStep_eq {δ : Type} [Device δ] (g : Group) (e : Executor δ) :
    buildStep g e = match obtain (Shader.render e.localSize g.calls) e with
      | .ok shader e' => .ok ⟨Shader.render e.localSize g.calls, shader, g.workSize, e.localSize,
          (g.workSize + e.localSize - 1) / e.localSize, g.commands⟩ e'
      | .error f e' => .error f e' := by
  rw [buildStep, get_bind]
  cases hobtain : obtain (Shader.render e.localSize g.calls) e with
  | ok shader e' => exact bind_of_ok hobtain _
  | error f e' => exact bind_of_error hobtain _

theorem mapM_buildStep_cons {δ : Type} [Device δ] (g : Group) (gs : List Group) (e : Executor δ) :
    (g :: gs).mapM buildStep e = match buildStep g e with
      | .ok step e' => match gs.mapM buildStep e' with
        | .ok steps e'' => .ok (step :: steps) e''
        | .error f e'' => .error f e''
      | .error f e' => .error f e' := by
  rw [List.mapM_cons]
  cases hstep : buildStep g e with
  | error f e' => exact bind_of_error hstep _
  | ok step e' =>
    simp only [bind_of_ok hstep]
    cases hsteps : List.mapM buildStep gs e' with
    | error f e'' => exact bind_of_error hsteps _
    | ok steps e'' => exact bind_of_ok hsteps _

theorem follows_buildStep (h : e.Honest) (g : Group) : (stateAfter (buildStep g e)).Follows e := by
  rw [buildStep_eq]
  rcases obtain_cases h (Shader.render e.localSize g.calls) with ⟨p, shader, e', -, hobtain, hfollows, -⟩ |
    ⟨f, -, hobtain⟩
  · rw [hobtain]
    exact hfollows
  · rw [hobtain]
    exact h.follows_self

theorem follows_mapM_buildStep (h : e.Honest) (gs : List Group) : (stateAfter (gs.mapM buildStep e)).Follows e := by
  induction gs generalizing e with
  | nil => exact h.follows_self
  | cons g gs ih =>
    have hg := follows_buildStep h g
    rw [mapM_buildStep_cons]
    cases hb : buildStep g e with
    | error f e' =>
      rw [hb] at hg
      exact hg
    | ok step e' =>
      have he' : e'.Follows e := by
        rw [hb] at hg
        exact hg
      have hgs := he'.trans (ih he'.honest)
      revert hgs
      simp only
      cases List.mapM buildStep gs e' <;> exact id

/-- a step for a group whose calls can be written -/
theorem buildStep_eq_ok (h : e.Honest) {g : Group} (hw : ∀ c ∈ g.calls, c.Writable) :
    ∃ step e', buildStep g e = .ok step e' ∧ e'.Follows e ∧ step.Runs e'.device.programs e.localSize g := by
  have hparse := Program.parse_render_of_writable h.positive h.bounded hw
  rcases obtain_cases h (Shader.render e.localSize g.calls) with ⟨p, shader, e', hp, hobtain, hfollows, hheld⟩ |
    ⟨f, hnone, -⟩
  · obtain rfl := Except.ok.inj (hparse.symm.trans hp)
    have hstep := buildStep_eq g e
    rw [hobtain] at hstep
    exact ⟨_, e', hstep, hfollows, hheld, rfl⟩
  · cases hparse.symm.trans hnone

/-- an honest executor has a step for every group, and the last one keeps the programs of all -/
theorem mapM_buildStep_eq_ok (h : e.Honest) {gs : List Group} (hw : ∀ g ∈ gs, ∀ c ∈ g.calls, c.Writable) :
    ∃ steps e', gs.mapM buildStep e = .ok steps e' ∧ e'.Follows e ∧
      List.Forall₂ (fun g step => Step.Runs e'.device.programs e.localSize g step) gs steps := by
  induction gs generalizing e with
  | nil => exact ⟨[], e, rfl, h.follows_self, .nil⟩
  | cons g gs ih =>
    obtain ⟨step, e', hstep, hfollows, hruns⟩ := buildStep_eq_ok h (hw g List.mem_cons_self)
    obtain ⟨steps, e'', hsteps, hfollows', hall⟩ := ih hfollows.honest fun g' hg' => hw g' (List.mem_cons_of_mem g hg')
    rw [hfollows.localSize] at hall
    refine ⟨step :: steps, e'', ?_, hfollows.trans hfollows', .cons ⟨?_, hruns.workgroups⟩ hall⟩
    · rw [mapM_buildStep_cons, hstep]
      simp only [hsteps]
    · exact hfollows'.programs _ _ hruns.program

end Executor

/-! ## Compiling -/

theorem plan_eq_ok {d : Directory} {description : Description} {layout : Signature} {gs : List Group} :
    plan d description = .ok (layout, gs) ↔
      ∃ rs snippets, Command.resolveAll d description = .ok rs ∧ rs.mapM Snippet.ofResolved = .ok snippets ∧
        Shader.groups snippets = .ok gs ∧ layout = .ofCommands rs := by
  simp only [plan, bind_eq_ok, lift_fault_eq_ok, pure_eq_ok, Prod.mk.injEq]
  refine ⟨?_, ?_⟩
  · intro h
    obtain ⟨rs, hrs, snippets, hs, _, hgs, rfl, rfl⟩ := h
    exact ⟨rs, snippets, hrs, hs, hgs, rfl⟩
  · intro h
    obtain ⟨rs, snippets, hrs, hs, hgs, rfl⟩ := h
    exact ⟨rs, hrs, snippets, hs, gs, hgs, rfl, rfl⟩

/-- a directory that the planned layout matches has the same plan -/
theorem plan_of_verify {d d' : Directory} {description : Description} {layout : Signature} {gs : List Group}
    (hplan : plan d description = .ok (layout, gs)) {u : Unit} (hv : layout.verify d' = .ok u) :
    plan d' description = .ok (layout, gs) := by
  obtain ⟨rs, snippets, hrs, hs, hgs, rfl⟩ := plan_eq_ok.1 hplan
  exact plan_eq_ok.2 ⟨rs, snippets, Command.resolveAll_of_verify hrs hv, hs, hgs, rfl⟩

namespace Executor

variable {e e' : Executor HostDevice} {d d' : Directory} {description : Description} {c : Computation}

theorem follows_compile (h : e.Honest) (d : Directory) (description : Description) :
    (stateAfter (Executor.compile d description e)).Follows e := by
  unfold Executor.compile
  cases plan d description with
  | error f => exact h.follows_self
  | ok planned =>
    obtain ⟨layout, gs⟩ := planned
    have hgs := follows_mapM_buildStep h gs
    revert hgs
    simp only
    cases List.mapM buildStep gs e <;> exact id

theorem follows_of_compile (h : e.Honest) (hc : Executor.compile d description e = .ok c e') : e'.Follows e := by
  have hfollows := follows_compile h d description
  rw [hc] at hfollows
  exact hfollows

/-- what compiles is what has a plan, and steps for all of its groups -/
theorem compile_iff {δ : Type} [Device δ] {e e' : Executor δ} : Executor.compile d description e = .ok c e' ↔
    ∃ layout gs steps, plan d description = .ok (layout, gs) ∧ gs.mapM buildStep e = .ok steps e' ∧
      ⟨steps, layout, e'.localSize⟩ = c := by
  unfold Executor.compile
  cases plan d description with
  | error f => simp
  | ok planned =>
    obtain ⟨layout, gs⟩ := planned
    simp only [Except.ok.injEq, Prod.mk.injEq]
    cases hsteps : List.mapM buildStep gs e with
    | error f e₁ =>
      simp only [reduceCtorEq, false_iff]
      intro hspec
      obtain ⟨_, _, steps, ⟨-, rfl⟩, h, -⟩ := hspec
      cases hsteps.symm.trans h
    | ok steps e₁ =>
      refine ⟨?_, ?_⟩
      · intro hok
        cases hok
        exact ⟨layout, gs, steps, ⟨rfl, rfl⟩, hsteps, rfl⟩
      · intro hspec
        obtain ⟨_, _, _, ⟨rfl, rfl⟩, h, rfl⟩ := hspec
        cases hsteps.symm.trans h
        rfl

theorem plan_of_compile (hc : Executor.compile d description e = .ok c e') :
    ∃ gs, plan d description = .ok (c.layout, gs) := by
  obtain ⟨layout, gs, steps, hplan, -, rfl⟩ := compile_iff.1 hc
  exact ⟨gs, hplan⟩

/-- a directory that the layout of a compiled description matches compiles it to the same steps -/
theorem compile_of_verify (hc : Executor.compile d description e = .ok c e') {u : Unit}
    (hv : c.layout.verify d' = .ok u) : Executor.compile d' description e = .ok c e' := by
  obtain ⟨layout, gs, steps, hplan, hsteps, rfl⟩ := compile_iff.1 hc
  exact compile_iff.2 ⟨layout, gs, steps, plan_of_verify hplan hv, hsteps, rfl⟩

end Executor

/-! ## Later executors -/

theorem programs_dispatch (h : ShaderHandle) (workgroups : Nat) (d : HostDevice) :
    (stateAfter (Device.dispatch h workgroups d)).programs = d.programs := by
  simp only [Device.dispatch, Run.attempt]
  cases hrun : d.dispatch h workgroups with
  | error f => rfl
  | ok d' =>
    obtain ⟨_, _, _, _, -, -, -, -, -, rfl⟩ := HostDevice.dispatch_eq_ok.1 hrun
    rfl

theorem extends_compile (source : String) (d : HostDevice) : (stateAfter (Device.compile source d)).Extends d := by
  cases hp : Program.parse source with
  | error f =>
    simp only [Device.compile, HostDevice.compile_of_error hp]
    exact HostDevice.extends_of_eq rfl
  | ok p =>
    simp only [Device.compile, HostDevice.compile_of_ok hp]
    exact d.extends_push p d.memory

theorem stateAfter_retrieve (size : Nat) (d : HostDevice) : stateAfter (Device.retrieve size d) = d := by
  simp only [Device.retrieve]
  cases d.retrieve size <;> rfl

theorem programs_submit (bytes : List UInt8) (d : HostDevice) :
    (stateAfter (Device.submit bytes d)).programs = d.programs := by
  simp only [Device.submit, Run.attempt, HostDevice.submit]
  split_ifs <;> rfl

theorem programs_runOn (c : Computation) (bytes : List UInt8) (n : Nat) (d : HostDevice) :
    (c.runOn bytes n d).device.programs = d.programs := by
  have hsubmit := programs_submit bytes d
  unfold Computation.runOn
  split
  · next hs =>
    rw [hs] at hsubmit
    exact hsubmit
  · next d₁ hs =>
    replace hsubmit : d₁.programs = d.programs := by
      rw [hs] at hsubmit
      exact hsubmit
    have hrun := Run.times_keeps (P := fun d' : HostDevice => d'.programs = d.programs)
      (fun (step : Step) d' hd' => (programs_dispatch step.shader step.workgroups d').trans hd') c.steps n 0 hsubmit
    split
    · next heq =>
      rw [heq] at hrun
      exact hrun
    · next d₂ _ heq =>
      rw [heq] at hrun
      have hkept := stateAfter_retrieve bytes.length d₂
      split
      · next hr =>
        rw [hr] at hkept
        exact (congrArg HostDevice.programs hkept).trans hrun
      · next hr =>
        rw [hr] at hkept
        exact (congrArg HostDevice.programs hkept).trans hrun

namespace Executor

variable {e : Executor HostDevice}

/-- the executors that a program can come to have: made for a device with an empty cache, set to another local size, and
used, with or without success -/
inductive Reached : Executor HostDevice → Prop
  | made (device : HostDevice) (localSize : Nat) (fingerprint : String → UInt64) (hbound : localSize < Size.bound) :
      Reached ⟨device, max localSize 1, fingerprint, []⟩
  | resized {e : Executor HostDevice} (h : Reached e) (localSize : Nat) (hbound : localSize < Size.bound) :
      Reached (e.withLocalSize localSize)
  | compiled {e : Executor HostDevice} (h : Reached e) (d : Directory) (description : Description) :
      Reached (stateAfter (Executor.compile d description e))
  | executed {e : Executor HostDevice} (h : Reached e) (c : Computation) (buf : Buffer .gpu) (s : Store) (n : Nat) :
      Reached (e.execute c buf s n).executor

theorem reached_create (device : HostDevice) : Reached (create device) :=
  .made device LocalSize.default fingerprintOf (by decide)

theorem later_execute (h : e.Honest) (c : Computation) (buf : Buffer .gpu) (s : Store) (n : Nat) :
    (e.execute c buf s n).executor.Later e := by
  have hlater := h.later_device (HostDevice.extends_of_eq (programs_runOn c (buf.bytes s) n e.device))
  unfold execute
  split
  · exact h.follows_self.toLater
  · simp only
    split
    · exact hlater
    · exact hlater

theorem honest_withLocalSize (h : e.Honest) {localSize : Nat} (hbound : localSize < Size.bound) :
    (e.withLocalSize localSize).Honest :=
  ⟨Nat.lt_of_lt_of_le Nat.one_pos (le_max_right _ _), max_lt hbound (by decide), h.kept⟩

theorem Reached.honest (h : e.Reached) : e.Honest := by
  induction h with
  | made device localSize fingerprint hbound =>
    refine ⟨Nat.lt_of_lt_of_le Nat.one_pos (le_max_right _ _), max_lt hbound (by decide), ?_⟩
    intro entry hentry
    cases hentry
  | resized _ localSize hbound ih => exact honest_withLocalSize ih hbound
  | compiled _ d description ih => exact (follows_compile ih d description).honest
  | executed _ c buf s n ih => exact (later_execute ih c buf s n).honest

end Executor

/-! ## Dispatches -/

section

variable {d : Directory} {a : Arena} {programs : Array Program} {localSize : Nat}

theorem workgroups_mul_lt {w : Nat} (hw : 2 * w < Size.bound) (hpos : 0 < localSize) (hls : localSize < Size.bound) :
    (w + localSize - 1) / localSize * localSize < Size.bound := by
  rcases Nat.lt_or_ge localSize w with hlt | hge
  · have hle := Nat.div_mul_le_self (w + localSize - 1) localSize
    omega
  · have hone : (w + localSize - 1) / localSize < 2 := by
      rw [Nat.div_lt_iff_lt_mul hpos]
      omega
    calc (w + localSize - 1) / localSize * localSize ≤ 1 * localSize := Nat.mul_le_mul_right _ (Nat.lt_succ_iff.1 hone)
      _ = localSize := Nat.one_mul _
      _ < Size.bound := hls

/-- a dispatch of a sound group succeeds and does what its snippets do one after the other -/
theorem dispatch_eq (h : LaidOut .gpu d a) {g : Group} (hg : g.Sound) (hlow : ∀ s ∈ g.snippets, s.Lowers d)
    {m : DeviceMemory} (hm : m.size = a.size) (hpos : 0 < localSize) (hls : localSize < Size.bound) {step : Step}
    (hstep : step.Runs programs localSize g) :
    Device.dispatch step.shader step.workgroups (⟨some m, programs⟩ : HostDevice) =
      .ok () ⟨some (m.sweepAll g.snippets), programs⟩ := by
  have hfits : ∀ s ∈ g.snippets, s.call.Fits a.size := by
    intro s hs
    obtain ⟨op, hop, hcall, -⟩ := hlow s hs
    rw [hcall]
    exact Operation.call_fits h hop
  -- a group has a snippet, so its work size is the size of a call that stays inside the arena
  have hwork : g.workSize ≤ a.size := by
    obtain ⟨s, hs⟩ := List.exists_mem_of_ne_nil _ hg.nonempty
    obtain ⟨op, hop, -, hw, -⟩ := hlow s hs
    have hfit := Binding.offset_add_count_le h hop.dest_recorded
    rw [← hg.uniform s hs, hw, Operation.size_call hop]
    omega
  have hcheck : checkExtents m.size g.calls = .ok () := by
    apply forM_eq_ok.2
    intro c hc
    obtain ⟨s, hs, rfl⟩ := List.mem_map.1 hc
    obtain ⟨k, hk, hext⟩ := Call.extent_eq (hfits s hs) h.size_lt
    refine bind_eq_ok.2 ⟨k, lift_fault_eq_ok.2 hext, ?_⟩
    rw [hm, if_neg (Nat.not_lt.2 hk)]
    rfl
  have hmul : Size.mul ((g.workSize + localSize - 1) / localSize) localSize =
      .ok ((g.workSize + localSize - 1) / localSize * localSize) := by
    have htwice := h.two_mul_size_lt
    exact Size.mul_eq_ok.2 ⟨workgroups_mul_lt (by omega) hpos hls, rfl⟩
  have hrun := run_group h hg hlow hm hpos
  have hok : HostDevice.dispatch ⟨some m, programs⟩ step.shader ((g.workSize + localSize - 1) / localSize) =
      .ok ⟨some (m.sweepAll g.snippets), programs⟩ :=
    HostDevice.dispatch_eq_ok.2 ⟨⟨localSize, g.calls⟩, m, _, _, hstep.program, rfl, hcheck, hmul, hrun, rfl⟩
  simp only [Device.dispatch, Run.attempt, hstep.workgroups, hok]

/-- the steps of sound groups, in order -/
theorem once_dispatch (h : LaidOut .gpu d a) {gs : List Group} (hgs : ∀ g ∈ gs, g.Sound)
    (hlow : ∀ s ∈ gs.flatMap (·.snippets), s.Lowers d) {m : DeviceMemory} (hm : m.size = a.size) (hpos : 0 < localSize)
    (hls : localSize < Size.bound) {steps : List Step}
    (hsteps : List.Forall₂ (fun g step => Step.Runs programs localSize g step) gs steps) (k : Nat) :
    Run.once (fun step : Step => Device.dispatch step.shader step.workgroups) steps k
      (⟨some m, programs⟩ : HostDevice) =
      ⟨⟨some (m.sweepAll (gs.flatMap (·.snippets))), programs⟩, k + steps.length, none⟩ := by
  induction hsteps generalizing m k with
  | nil => rfl
  | @cons g step gs steps hstep _ ih =>
    have hfirst := dispatch_eq h (hgs g List.mem_cons_self) (fun s hs => hlow s (List.mem_append_left _ hs)) hm hpos
        hls hstep
    have hrest := ih (fun g' hg' => hgs g' (List.mem_cons_of_mem g hg'))
        (fun s hs => hlow s (List.mem_append_right _ hs))
      ((DeviceMemory.size_sweepAll g.snippets m).trans hm) (k + 1)
    have hcut :
        m.sweepAll ((g :: gs).flatMap (·.snippets)) = (m.sweepAll g.snippets).sweepAll (gs.flatMap (·.snippets)) := by
      rw [List.flatMap_cons, DeviceMemory.sweepAll, List.foldl_append]
      rfl
    rw [Run.once, hfirst, hcut, List.length_cons, Nat.add_comm steps.length, ← Nat.add_assoc]
    exact hrest

/-- the steps of the groups of resolved commands, `n` times over, have the effects of the commands -/
theorem times_dispatch (h : LaidOut .gpu d a) {rs : List Resolved} {snippets : List Snippet}
    (hs : List.Forall₂ (fun r s => Snippet.ofResolved r = .ok s) rs snippets) (ht : ∀ r ∈ rs, r.operation.Typed d)
    {gs : List Group} (hgs : ∀ g ∈ gs, g.Sound) (hflat : gs.flatMap (·.snippets) = snippets)
    (hlow : ∀ s ∈ snippets, s.Lowers d) (hpos : 0 < localSize) (hls : localSize < Size.bound) {steps : List Step}
    (hsteps : List.Forall₂ (fun g step => Step.Runs programs localSize g step) gs steps) (n k : Nat) :
    Run.times (fun step : Step => Device.dispatch step.shader step.workgroups) steps n k
        (⟨some a.memory, programs⟩ : HostDevice) =
      ⟨⟨some ((Command.applyAll .gpu rs)^[n] a).memory, programs⟩, k + n * steps.length, none⟩ := by
  induction n generalizing a k with
  | zero => simp [Run.times]
  | succ n ih =>
    have honce := once_dispatch h hgs (hflat.symm ▸ hlow) a.size_memory hpos hls hsteps k
    rw [hflat, Command.sweepAll_memory h hs ht] at honce
    rw [Run.times, honce]
    simp only [ih (Command.laidOut_applyAll h ht), Function.iterate_succ_apply]
    congr 1
    rw [Nat.succ_mul]
    omega

end

/-! ## Executions on the device -/

/-- the numbers of a lowered operation can be written -/
theorem call_writable {d : Directory} {a : Arena} (h : LaidOut .gpu d a) {op : Operation} (hop : op.Typed d) :
    op.call.Writable := by
  have hfits := Operation.call_fits h hop
  have hsize := h.size_lt
  have hlt {i len : Nat} (hle : i + len ≤ a.size) : i < Size.bound ∧ len < Size.bound := by omega
  obtain ⟨_, hop⟩ := hop
  cases hop with
  | @scale _ _ _ factor _ _ _ hfactor _ _ =>
    obtain ⟨hd, hs⟩ := hfits
    refine ⟨by simp [Call.Sized, Call.sizes, Operation.call, hlt hd, hlt hs], ?_⟩
    intro x hx
    cases hx
    exact Single.isNaN_of_isFinite (Option.filter_eq_some_iff.1 hfactor).2
  | product =>
    obtain ⟨hd, hm, hv⟩ := hfits
    exact ⟨by simp [Call.Sized, Call.sizes, Operation.call, hlt hd, hlt hm, hlt hv], fun x hx => by cases hx⟩
  | add =>
    obtain ⟨hd, hl, hr⟩ := hfits
    exact ⟨by simp [Call.Sized, Call.sizes, Operation.call, hlt hd, hlt hl, hlt hr], fun x hx => by cases hx⟩

section

variable {d : Directory} {a : Arena} {description : Description} {e e' : Executor HostDevice} {c : Computation}

/-- what is planned for a buffer that is laid out is compiled, to steps that run the groups -/
theorem Executor.compile_eq_ok (he : e.Honest) (h : LaidOut .gpu d a) {layout : Signature} {gs : List Group}
    (hplan : plan d description = .ok (layout, gs)) :
    ∃ steps e', Executor.compile d description e = .ok ⟨steps, layout, e.localSize⟩ e' ∧ e'.Follows e ∧
      List.Forall₂ (fun g step => Step.Runs e'.device.programs e.localSize g step) gs steps := by
  obtain ⟨rs, snippets, hrs, hs, hgs, rfl⟩ := plan_eq_ok.1 hplan
  have hlow := lowers_of_mapM h hrs hs
  obtain ⟨gs', hgs', hflat, -⟩ := groups_eq_sweepAll h hlow a.size_memory he.positive
  obtain rfl := Except.ok.inj (hgs.symm.trans hgs')
  have hw : ∀ g ∈ gs, ∀ call ∈ g.calls, call.Writable := by
    intro g hg call hcall
    obtain ⟨s, hsg, rfl⟩ := List.mem_map.1 hcall
    obtain ⟨op, hop, hsc, -⟩ := hlow s (hflat ▸ List.mem_flatMap.2 ⟨g, hg, hsg⟩)
    rw [hsc]
    exact call_writable h hop
  obtain ⟨steps, e', hsteps, hfollows, hruns⟩ := Executor.mapM_buildStep_eq_ok he hw
  refine ⟨steps, e', ?_, hfollows, hruns⟩
  simp only [Executor.compile, hplan, hsteps, hfollows.localSize]

/-- what compiles on an honest executor is what resolves and lowers -/
theorem Executor.exists_compile (he : e.Honest) (h : LaidOut .gpu d a) :
    (∃ c e', Executor.compile d description e = .ok c e') ↔
      ∃ rs snippets, Command.resolveAll d description = .ok rs ∧ rs.mapM Snippet.ofResolved = .ok snippets := by
  refine ⟨?_, ?_⟩
  · intro hok
    obtain ⟨c, e', hc⟩ := hok
    obtain ⟨gs, hplan⟩ := plan_of_compile hc
    obtain ⟨rs, snippets, hrs, hs, -⟩ := plan_eq_ok.1 hplan
    exact ⟨rs, snippets, hrs, hs⟩
  · intro hok
    obtain ⟨rs, snippets, hrs, hs⟩ := hok
    obtain ⟨gs, hgs, -⟩ := groups_eq_sweepAll h (lowers_of_mapM h hrs hs) a.size_memory he.positive
    obtain ⟨steps, e', hc, -⟩ := Executor.compile_eq_ok he h (plan_eq_ok.2 ⟨rs, snippets, hrs, hs, hgs, rfl⟩)
    exact ⟨_, e', hc⟩

/-- a description that compiles against a buffer that is laid out is executed on it by every later executor, with the
effects of its commands in order, `n` times over -/
theorem Executor.execute_eq_applyAll (he : e.Honest) {buf : Buffer .gpu} {s : Store}
    (h : LaidOut .gpu buf.directory (s.arena buf.arena)) (hc : Executor.compile buf.directory description e = .ok c e')
    {f : Executor HostDevice} (hf : f.device.Extends e'.device) (n : Nat) :
    ∃ rs snippets, Command.resolveAll buf.directory description = .ok rs ∧
      rs.mapM Snippet.ofResolved = .ok snippets ∧ (f.execute c buf s n).result = .ok () ∧
      (f.execute c buf s n).store = s.put buf.arena ((Command.applyAll .gpu rs)^[n] (s.arena buf.arena)) := by
  obtain ⟨gs, hplan⟩ := plan_of_compile hc
  obtain ⟨steps, e₁, hcompile, -, hruns⟩ := Executor.compile_eq_ok he h hplan
  obtain ⟨rs, snippets, hrs, hs, hgs, hlayout⟩ := plan_eq_ok.1 hplan
  rw [hlayout, hc] at hcompile
  cases hcompile
  have hlow := lowers_of_mapM h hrs hs
  have htyped := Command.typed_of_resolveAll hrs
  obtain ⟨gs', hgs', hflat, hsound, -⟩ := groups_eq_sweepAll h hlow (s.arena buf.arena).size_memory he.positive
  obtain rfl := Except.ok.inj (hgs.symm.trans hgs')
  have htimes := times_dispatch h (mapM_eq_ok.1 hs) htyped hsound hflat hlow he.positive he.bounded
    (hruns.imp fun g step hstep => hstep.extends hf) n 0
  have hsize : (s.arena buf.arena).byteSize = ((Command.applyAll .gpu rs)^[n] (s.arena buf.arena)).byteSize :=
    congrArg (Size.wordBytes * ·) (Command.size_applyAll_iterate .gpu rs n (s.arena buf.arena)).symm
  have hran : (Computation.runOn ⟨steps, .ofCommands rs, e.localSize⟩ (buf.bytes s) n f.device).result =
      .ok (Bytes.ofWords (((Command.applyAll .gpu rs)^[n] (s.arena buf.arena)).memory.toList.map Single.bits)) := by
    rw [Computation.runOn, Buffer.bytes, HostDevice.submit_bytes]
    simp only [htimes, Arena.length_bytes, hsize, HostDevice.retrieve_memory]
  refine ⟨rs, snippets, hrs, hs, ?_⟩
  simp only [Executor.execute, Command.verify_resolved hrs, hran, Arena.ofBytes_memory, and_self]

/-- where every matrix has a column, these are the effects that the commands have on the host -/
theorem Executor.execute_eq (he : e.Honest) {buf : Buffer .gpu} {s : Store}
    (h : LaidOut .gpu buf.directory (s.arena buf.arena)) (hc : Executor.compile buf.directory description e = .ok c e')
    (hcols : ∀ rs, Command.resolveAll buf.directory description = .ok rs → ∀ r ∈ rs, r.operation.HasColumns) (n : Nat) :
    ∃ rs, Command.resolveAll buf.directory description = .ok rs ∧ (e'.execute c buf s n).result = .ok () ∧
      (e'.execute c buf s n).store = s.put buf.arena ((Command.afterAll .gpu rs)^[n] (s.arena buf.arena)) := by
  obtain ⟨rs, snippets, hrs, hs, hresult, hstore⟩ := Executor.execute_eq_applyAll he h hc (fun _ _ hp => hp) n
  have htyped := Command.typed_of_resolveAll hrs
  have hsame := Command.applyAll_iterate_eq_afterAll h (mapM_eq_ok.1 hs)
    (fun r hr => ⟨htyped r hr, hcols rs hrs r hr⟩) n
  exact ⟨rs, hrs, hresult, hsame ▸ hstore⟩

end

end Gpu

end ArrayEngine
