/-
What the steps of a computation are.

The commands of a description are lowered and grouped, and every group becomes a step: with its commands, its work size
and as few workgroups as cover it (`Step.Covers`). This is so on any device, whatever shaders it holds.
- `covers_mapM_buildStep` follows the groups one by one, `covers_of_compile` a description that compiles;
- `groups_optimal`: so the steps hold the commands in order, and groups are valid and as few as can be.
-/
import ArrayEngine.Proofs.Isolation

namespace ArrayEngine

open Shader (Group Snippet Compatible)

/-! ## Commands -/

namespace Shader.Snippet

theorem command_of_ofResolved {r : Resolved} {s : Snippet} (h : ofResolved r = .ok s) : s.command = r.text := by
  obtain ⟨call, -, h⟩ := bind_eq_ok.1 h
  obtain ⟨workSize, -, h⟩ := bind_eq_ok.1 h
  obtain ⟨inPlace, -, h⟩ := bind_eq_ok.1 h
  cases inPlace with
  | true => cases h
  | false =>
    cases h
    rfl

end Shader.Snippet

/-- the snippets of a description have its commands -/
theorem map_command_of_plan {d : Directory} {description : Description} {rs : List Resolved} {snippets : List Snippet}
    (hrs : Command.resolveAll d description = .ok rs) (hs : rs.mapM Snippet.ofResolved = .ok snippets) :
    snippets.map (·.command) = description.steps := by
  have hcommands : snippets.map (·.command) = rs.map (·.text) :=
    map_of_mapM hs fun _ _ h => Snippet.command_of_ofResolved h
  have htexts : rs.map (·.text) = description.steps.map id :=
    map_of_mapM hrs fun _ _ h => (Command.resolve_eq_ok.1 h).1
  rw [hcommands, htexts, List.map_id]

namespace Gpu

/-- what a step has of the group that it runs: the commands, the work size and the fewest workgroups that cover it -/
structure Step.Covers (ls : Nat) (g : Group) (step : Step) : Prop where
  commands : step.commands = g.commands
  workSize : step.workSize = g.workSize
  localSize : step.localSize = ls
  workgroups : IsLeast {k | step.workSize ≤ k * step.localSize} step.workgroups

theorem isLeast_workgroups (w : Nat) {ls : Nat} (hls : 0 < ls) : IsLeast {k | w ≤ k * ls} ((w + ls - 1) / ls) := by
  refine ⟨le_workgroups_mul hls, ?_⟩
  intro k (hk : w ≤ k * ls)
  rw [← Nat.lt_succ_iff, Nat.div_lt_iff_lt_mul hls, Nat.succ_mul]
  omega

namespace Executor

variable {δ : Type} [Device δ] {e e' : Executor δ} {d : Directory} {description : Description} {c : Computation}

theorem localSize_obtain (source : String) (e : Executor δ) :
    (stateAfter (obtain source e)).localSize = e.localSize := by
  rw [obtain, get_bind]
  cases e.cached? source with
  | some shader => rfl
  | none =>
    cases hcompile : Device.compile source e.device with
    | ok shader device =>
      have hstep : onDevice (Device.compile source) e = .ok shader { e with device := device } := by
        simp only [onDevice, hcompile]
      simp only [bind_of_ok hstep]
      rfl
    | error f device =>
      have hstep : onDevice (Device.compile source) e = .error f { e with device := device } := by
        simp only [onDevice, hcompile]
      simp only [bind_of_error hstep]
      rfl

theorem covers_buildStep (hpos : 0 < e.localSize) {g : Group} {step : Step} (h : buildStep g e = .ok step e') :
    step.Covers e.localSize g ∧ e'.localSize = e.localSize := by
  have hls := localSize_obtain (Shader.render e.localSize g.calls) e
  rw [buildStep_eq] at h
  cases hobtain : obtain (Shader.render e.localSize g.calls) e with
  | ok shader e₁ =>
    rw [hobtain] at h hls
    cases h
    exact ⟨⟨rfl, rfl, rfl, isLeast_workgroups g.workSize hpos⟩, hls⟩
  | error f e₁ =>
    rw [hobtain] at h
    cases h

theorem covers_mapM_buildStep (hpos : 0 < e.localSize) {gs : List Group} {steps : List Step}
    (h : gs.mapM buildStep e = .ok steps e') : List.Forall₂ (Step.Covers e.localSize) gs steps := by
  induction gs generalizing e steps with
  | nil =>
    cases h
    exact .nil
  | cons g gs ih =>
    rw [mapM_buildStep_cons] at h
    cases hstep : buildStep g e with
    | error f e₁ =>
      rw [hstep] at h
      cases h
    | ok step e₁ =>
      obtain ⟨hcovers, hls⟩ := covers_buildStep hpos hstep
      rw [hstep] at h
      cases hsteps : gs.mapM buildStep e₁ with
      | error f e₂ =>
        simp only [hsteps] at h
        cases h
      | ok rest e₂ =>
        simp only [hsteps] at h
        cases h
        exact .cons hcovers (hls ▸ ih (hls ▸ hpos) hsteps)

/-- the steps of a description that compiles are those of the groups of its commands -/
theorem covers_of_compile (hpos : 0 < e.localSize) (hc : Executor.compile d description e = .ok c e') :
    ∃ snippets gs, snippets.map (·.command) = description.steps ∧ Shader.groups snippets = .ok gs ∧
      List.Forall₂ (Step.Covers e.localSize) gs c.steps := by
  obtain ⟨layout, gs, steps, hplan, hsteps, rfl⟩ := compile_iff.1 hc
  obtain ⟨rs, snippets, hrs, hs, hgs, -⟩ := plan_eq_ok.1 hplan
  exact ⟨snippets, gs, map_command_of_plan hrs hs, hgs, covers_mapM_buildStep hpos hsteps⟩

theorem map_commands_of_covers {ls : Nat} {gs : List Group} {steps : List Step}
    (h : List.Forall₂ (Step.Covers ls) gs steps) : steps.map (·.commands) = gs.map Group.commands := by
  induction h with
  | nil => rfl
  | cons hcovers _ ih => rw [List.map_cons, List.map_cons, hcovers.commands, ih]

/-- the groups hold the snippets in order, and so the steps hold the commands -/
theorem flatten_stepCommands {snippets : List Snippet} {gs : List Group} {ls : Nat}
    (hgs : Shader.groups snippets = .ok gs) (hsteps : List.Forall₂ (Step.Covers ls) gs c.steps) :
    c.stepCommands.flatten = snippets.map (·.command) :=
  calc c.stepCommands.flatten
    _ = (gs.map fun g => g.snippets.map (·.command)).flatten := congrArg _ (map_commands_of_covers hsteps)
    _ = (gs.flatMap (·.snippets)).map (·.command) := by rw [List.map_flatMap, List.flatMap_def]
    _ = snippets.map (·.command) := by rw [(Shader.groups_spec hgs).1]

end Executor

/-- **Grouping.** Snippets whose ranges are sizes are grouped into valid groups that hold them in order, and no division
into compatible runs has fewer. What compiles, on any device, has a step for every group of its commands, with the
fewest workgroups that cover the work size; and so its steps hold the commands of the description in order. -/
theorem groups_optimal :
    (∀ snippets : List Snippet, (∀ s ∈ snippets, s.Ranged) →
      ∃ gs, Shader.groups snippets = .ok gs ∧ gs.flatMap (·.snippets) = snippets ∧ (∀ g ∈ gs, g.Valid) ∧
        ∀ runs : List (List Snippet), runs.flatten = snippets → (∀ run ∈ runs, Compatible run) →
          gs.length ≤ runs.length) ∧
    ∀ (δ : Type) [Device δ] (e e' : Executor δ) (d : Directory) (description : Description) (c : Computation),
      0 < e.localSize → Executor.compile d description e = .ok c e' →
        c.stepCommands.flatten = description.steps ∧
        (∀ step ∈ c.steps, IsLeast {k | step.workSize ≤ k * step.localSize} step.workgroups) ∧
        ∃ snippets gs, snippets.map (·.command) = description.steps ∧ Shader.groups snippets = .ok gs ∧
          List.Forall₂ (Step.Covers e.localSize) gs c.steps := by
  refine ⟨?_, ?_⟩
  · intro snippets hranged
    obtain ⟨gs, hgs⟩ := Shader.exists_groups hranged
    exact ⟨gs, hgs, Shader.groups_spec hgs⟩
  · intro δ _ e e' d description c hpos hc
    obtain ⟨snippets, gs, hcommands, hgs, hsteps⟩ := Executor.covers_of_compile hpos hc
    refine ⟨(Executor.flatten_stepCommands hgs hsteps).trans hcommands, ?_, snippets, gs, hcommands, hgs, hsteps⟩
    intro step hstep
    obtain ⟨i, hi, rfl⟩ := List.getElem_of_mem hstep
    exact ((List.forall₂_iff_get.1 hsteps).2 i (hsteps.length_eq ▸ hi) hi).workgroups

/-- four commands on twelve elements: the product gathers what the first one writes, the third one is apart from the
product, and the last one has another work size -/
def hazards : List Snippet :=
  [⟨"v = add v v", .add 0 0 0 4, 4⟩, ⟨"w = multiply m v", .product 4 8 0 4 1, 4⟩,
    ⟨"w = multiply w 2", .scale 4 4 4 ⟨0x40000000⟩, 4⟩, ⟨"u = multiply u 2", .scale 9 9 3 ⟨0x40000000⟩, 3⟩]

theorem ranged_hazards : ∀ s ∈ hazards, s.Ranged := by
  simp only [hazards, List.forall_mem_cons]
  exact ⟨⟨⟨_, rfl⟩, ⟨_, rfl⟩⟩, ⟨⟨_, rfl⟩, ⟨_, rfl⟩⟩, ⟨⟨_, rfl⟩, ⟨_, rfl⟩⟩, ⟨⟨_, rfl⟩, ⟨_, rfl⟩⟩, nofun⟩

/-- those commands need three groups; and the two elements of a buffer, doubled, take one workgroup of four -/
theorem groups_optimal_sample :
    (∃ gs, Shader.groups hazards = .ok gs ∧ gs.map (·.snippets.length) = [1, 2, 1] ∧
      ∀ runs : List (List Snippet), runs.flatten = hazards → (∀ run ∈ runs, Compatible run) → 3 ≤ runs.length) ∧
    ∃ c e, Executor.compile Session.pairBuffer.directory ⟨["a = multiply a 2"]⟩ (Executor.fresh fingerprintOf 4) =
        .ok c e ∧
      c.stepCommands.flatten = ["a = multiply a 2"] ∧ c.steps.map (·.workgroups) = [1] := by
  refine ⟨?_, ?_⟩
  · obtain ⟨gs, hgs, -, -, hleast⟩ := groups_optimal.1 hazards ranged_hazards
    have hlengths : (Shader.groups hazards).toOption.map (fun gs => gs.map (·.snippets.length)) = some [1, 2, 1] := by
      decide +kernel
    rw [hgs] at hlengths
    have hmap : gs.map (·.snippets.length) = [1, 2, 1] := Option.some.inj hlengths
    have hlength : gs.length = 3 := by simpa using congrArg List.length hmap
    exact ⟨gs, hgs, hmap, fun runs hflat hruns => hlength ▸ hleast runs hflat hruns⟩
  · have hhonest : (Executor.fresh fingerprintOf 4).Honest := Executor.honest_fresh fingerprintOf (by decide)
    have hls : (Executor.fresh fingerprintOf 4).localSize = 4 := Executor.localSize_fresh fingerprintOf (by decide)
    obtain ⟨step, e, hc, -, hworkgroups⟩ :=
      Executor.compile_single hhonest rfl Session.laidOut_pair Session.plan_double
    refine ⟨_, e, hc, (groups_optimal.2 HostDevice _ e _ _ _ (by rw [hls]; decide) hc).1, ?_⟩
    rw [List.map_singleton, hworkgroups, hls]
    rfl

end Gpu

end ArrayEngine
