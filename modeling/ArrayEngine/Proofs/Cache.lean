/-
The shaders that an executor keeps.

An executor is asked for the shaders of sources, one after the other (`ask`, `askAll`); compiling a description asks for
those of its groups (`mapM_buildStep_again`). A kept shader is found by the fingerprint of its source. Another source
with this fingerprint takes its place, so that the first one has to be compiled again; but no source is ever answered a
shader of another one.
- `cached?_ask` is the step and `cached?_askAll` the run: what is kept for a source stays, as long as no other source
  with its fingerprint is asked for;
- `Tidy` is what the kept shaders are if no two of the sources have one fingerprint: one for each source, and all that
  the device has. `tidy_ask` is the step and `tidy_askAll` the run;
- `keeps_shaders`: so whatever an executor was asked for, it answers every source a shader of this very source, and if
  no two fingerprints are the same, it compiles no source twice.
-/
import ArrayEngine.Proofs.Isolation

namespace ArrayEngine

open Shader (Group)

/-- whether a source has a program -/
def Program.accepts (source : String) : Bool := (parse source).toOption.isSome

theorem Program.accepts_iff {source : String} : accepts source = true ↔ ∃ p, parse source = .ok p := by
  simp only [accepts, Option.isSome_iff_exists, toOption_eq_some]

/-- a shader that was rendered: its local size and the arguments of its calls are sizes -/
def Shader.Rendered (source : String) : Prop :=
  ∃ localSize calls, 0 < localSize ∧ localSize < Size.bound ∧ (∀ c ∈ calls, Call.Sized c) ∧
    source = render localSize calls

theorem Shader.Rendered.accepts {source : String} (h : Rendered source) : Program.accepts source = true := by
  obtain ⟨localSize, calls, hpos, hbound, hsized, rfl⟩ := h
  exact Program.accepts_iff.2 ⟨_, Program.parse_render hpos hbound hsized⟩

/-- the same outcome in another state -/
def inState {ε σ α : Type} (r : EStateM.Result ε σ α) (s : σ) : EStateM.Result ε σ α :=
  match r with
  | .ok a _ => .ok a s
  | .error f _ => .error f s

@[simp]
theorem stateAfter_inState {ε σ α : Type} (r : EStateM.Result ε σ α) (s : σ) : stateAfter (inState r s) = s := by
  cases r <;> rfl

namespace Gpu

/-- the sources that the groups of a description come to -/
def groupSources (localSize : Nat) (d : Directory) (description : Description) : List String :=
  match plan d description with
  | .ok (_, groups) => groups.map fun g => Shader.render localSize g.calls
  | .error _ => []

namespace Executor

variable {e e' : Executor HostDevice} {source other : String} {sources requests : List String} {shader : ShaderHandle}

/-! ## Asking for shaders -/

/-- the executor after it was asked for the shader of a source -/
def ask (e : Executor HostDevice) (source : String) : Executor HostDevice := stateAfter (obtain source e)

def askAll (e : Executor HostDevice) (sources : List String) : Executor HostDevice := sources.foldl ask e

theorem askAll_append (e : Executor HostDevice) (sources sources' : List String) :
    e.askAll (sources ++ sources') = (e.askAll sources).askAll sources' := List.foldl_append

theorem obtain_of_cached (h : e.cached? source = some shader) : obtain source e = .ok shader e := by
  rw [obtain_eq, h]

theorem ask_of_cached (h : e.cached? source = some shader) : e.ask source = e := by
  rw [ask, obtain_of_cached h]
  rfl

theorem ask_of_parse {p : Program} (h : e.cached? source = none) (hp : Program.parse source = .ok p) :
    e.ask source = e.learn source p := by
  rw [ask, obtain_eq, h, hp]
  rfl

theorem ask_of_refused {f : EngineError} (h : e.cached? source = none) (hp : Program.parse source = .error f) :
    e.ask source = e := by
  rw [ask, obtain_eq, h, hp]
  rfl

theorem ask_of_obtain (h : obtain source e = .ok shader e') : e.ask source = e' := by
  rw [ask, h]
  rfl

/-- no shader is kept for a source without a program -/
theorem obtain_of_refused (h : e.Honest) {f : EngineError} (hp : Program.parse source = .error f) :
    obtain source e = .error (.refused f) e := by
  rcases obtain_cases h source with ⟨p, _, _, hp', -⟩ | ⟨f', hp', hobtain⟩
  · cases hp.symm.trans hp'
  · cases hp.symm.trans hp'
    exact hobtain

/-- asking for a shader answers a kept one, compiles one, or is refused -/
theorem ask_cases (e : Executor HostDevice) (source : String) :
    e.ask source = e ∨ ∃ p, e.cached? source = none ∧ e.ask source = e.learn source p := by
  cases hc : e.cached? source with
  | some shader => exact .inl (ask_of_cached hc)
  | none =>
    cases hp : Program.parse source with
    | ok p => exact .inr ⟨p, rfl, ask_of_parse hc hp⟩
    | error f => exact .inl (ask_of_refused hc hp)

theorem fingerprint_ask (e : Executor HostDevice) (source : String) : (e.ask source).fingerprint = e.fingerprint := by
  rcases ask_cases e source with heq | ⟨p, -, heq⟩
  · rw [heq]
  · rw [heq]
    rfl

theorem fingerprint_askAll (e : Executor HostDevice) (sources : List String) :
    (e.askAll sources).fingerprint = e.fingerprint := by
  induction sources generalizing e with
  | nil => rfl
  | cons source sources ih => exact (ih (e.ask source)).trans (fingerprint_ask e source)

theorem follows_ask (h : e.Honest) (source : String) : (e.ask source).Follows e := by
  rcases obtain_cases h source with ⟨p, shader, e', -, hobtain, hfollows, -⟩ | ⟨f, -, hobtain⟩
  · rw [ask_of_obtain hobtain]
    exact hfollows
  · rw [ask, hobtain]
    exact h.follows_self

theorem follows_askAll (h : e.Honest) (sources : List String) : (e.askAll sources).Follows e := by
  induction sources generalizing e with
  | nil => exact h.follows_self
  | cons source sources ih =>
    have hask := follows_ask h source
    exact hask.trans (ih hask.honest)

/-! ## What stays kept -/

theorem cached?_learn_self (e : Executor HostDevice) (source : String) (p : Program) :
    (e.learn source p).cached? source = some ⟨e.device.programs.size⟩ := by
  simp [cached?, learn, keep]

theorem cached?_learn_of_ne (h : e.fingerprint source ≠ e.fingerprint other) (p : Program) :
    (e.learn other p).cached? source = e.cached? source := by
  have hfind : (e.learn other p).cache.find? (·.fingerprint == e.fingerprint source) =
      e.cache.find? (·.fingerprint == e.fingerprint source) := by
    have hnew : (e.fingerprint other == e.fingerprint source) = false := beq_false_of_ne h.symm
    simp only [learn, keep, List.find?_cons, hnew, List.find?_filter]
    refine congrArg (e.cache.find? ·) (funext fun entry => ?_)
    -- an entry with the fingerprint of `source` is none that the new one replaces
    by_cases hkey : entry.fingerprint = e.fingerprint source
    · simp [hkey, h]
    · simp [hkey]
  unfold cached?
  rw [← hfind]
  rfl

theorem cached?_of_obtain (h : obtain source e = .ok shader e') : e'.cached? source = some shader := by
  rw [obtain_eq] at h
  cases hc : e.cached? source with
  | some kept =>
    rw [hc] at h
    cases h
    exact hc
  | none =>
    rw [hc] at h
    cases hp : Program.parse source with
    | ok p =>
      rw [hp] at h
      cases h
      exact cached?_learn_self e source p
    | error f =>
      rw [hp] at h
      cases h

/-- what is kept for a source stays, unless another source with its fingerprint is asked for -/
theorem cached?_ask (hkey : e.fingerprint source = e.fingerprint other → source = other)
    (h : e.cached? source = some shader) : (e.ask other).cached? source = some shader := by
  rcases ask_cases e other with heq | ⟨p, hnone, heq⟩
  · rw [heq]
    exact h
  · have hne : e.fingerprint source ≠ e.fingerprint other := by
      intro hsame
      rw [hkey hsame, hnone] at h
      cases h
    rw [heq, cached?_learn_of_ne hne, h]

theorem cached?_askAll (hkey : ∀ other ∈ sources, e.fingerprint source = e.fingerprint other → source = other)
    (h : e.cached? source = some shader) : (e.askAll sources).cached? source = some shader := by
  induction sources generalizing e with
  | nil => exact h
  | cons other sources ih =>
    obtain ⟨hother, hsources⟩ := List.forall_mem_cons.1 hkey
    refine ih ?_ (cached?_ask hother h)
    rwa [fingerprint_ask]

/-! ## What is kept if no two fingerprints are the same -/

/-- the kept shaders of an executor that was asked for sources with different fingerprints: one for each source that has
a program, and one for each program of the device, the last one first -/
structure Tidy (e : Executor HostDevice) (requests : List String) : Prop where
  keyed : ∀ entry ∈ e.cache, entry.fingerprint = e.fingerprint entry.source
  sources : ∀ source, source ∈ e.cache.map (·.source) ↔ source ∈ requests ∧ Program.accepts source = true
  nodup : (e.cache.map (·.source)).Nodup
  handles : e.cache.map (·.shader.index) = (List.range e.device.programs.size).reverse

/-- no shader is kept under the fingerprint of a source that is asked for the first time -/
theorem Tidy.ne_of_cached?_eq_none (h : e.Tidy requests)
    (hkey : ∀ other ∈ requests, e.fingerprint other = e.fingerprint source → other = source)
    (hnone : e.cached? source = none) : ∀ entry ∈ e.cache, entry.fingerprint ≠ e.fingerprint source := by
  cases hfind : e.cache.find? (·.fingerprint == e.fingerprint source) with
  | none =>
    intro entry hentry hsame
    exact List.find?_eq_none.1 hfind entry hentry (beq_iff_eq.2 hsame)
  | some entry =>
    have hmem := List.mem_of_find?_eq_some hfind
    have hfingerprint : entry.fingerprint = e.fingerprint source := by simpa using List.find?_some hfind
    have hasked := ((h.sources _).1 (List.mem_map_of_mem hmem)).1
    have hsource : entry.source = source := hkey _ hasked ((h.keyed entry hmem).symm.trans hfingerprint)
    rw [cached?, hfind] at hnone
    simp only [if_pos hsource] at hnone
    cases hnone

theorem tidy_learn (h : e.Tidy requests) (hne : ∀ entry ∈ e.cache, entry.fingerprint ≠ e.fingerprint source)
    {p : Program} (hp : Program.parse source = .ok p) : (e.learn source p).Tidy (requests ++ [source]) := by
  have hcache : (e.learn source p).cache = ⟨e.fingerprint source, source, ⟨e.device.programs.size⟩⟩ :: e.cache := by
    simp only [learn, keep]
    rw [List.filter_eq_self.2 fun entry hentry => bne_iff_ne.2 (hne entry hentry)]
  refine ⟨?_, ?_, ?_, ?_⟩
  · rw [hcache]
    exact List.forall_mem_cons.2 ⟨rfl, h.keyed⟩
  · intro other
    have haccepts : Program.accepts source = true := Program.accepts_iff.2 ⟨p, hp⟩
    rw [hcache, List.map_cons, List.mem_cons, h.sources, List.mem_append, List.mem_singleton, or_and_right,
      or_comm]
    exact or_congr_right ⟨fun heq => ⟨heq, heq ▸ haccepts⟩, And.left⟩
  · rw [hcache, List.map_cons, List.nodup_cons]
    refine ⟨?_, h.nodup⟩
    intro hmem
    obtain ⟨entry, hentry, hsource⟩ := List.mem_map.1 hmem
    exact hne entry hentry ((h.keyed entry hentry).trans (congrArg e.fingerprint hsource))
  · have hsize : (e.learn source p).device.programs.size = e.device.programs.size + 1 := Array.size_push p
    rw [hcache, List.map_cons, h.handles, hsize, List.range_succ, List.reverse_append, List.reverse_singleton,
      List.singleton_append]

/-- a source that is kept, or has no program, adds nothing -/
theorem Tidy.concat (h : e.Tidy requests)
    (hsource : source ∈ e.cache.map (·.source) ∨ Program.accepts source = false) :
    e.Tidy (requests ++ [source]) := by
  refine ⟨h.keyed, ?_, h.nodup, h.handles⟩
  intro other
  rw [h.sources, List.mem_append, List.mem_singleton]
  refine and_congr_left fun haccepts => ⟨.inl, ?_⟩
  rintro (hother | rfl)
  · exact hother
  · rcases hsource with hkept | hnone
    · exact ((h.sources _).1 hkept).1
    · cases haccepts.symm.trans hnone

/-- the entry that is found for a source -/
theorem exists_of_cached? (h : e.cached? source = some shader) :
    ∃ entry ∈ e.cache, entry.source = source ∧ entry.shader = shader := by
  unfold cached? at h
  split at h
  · next entry hfind =>
    split_ifs at h with hs
    cases h
    exact ⟨entry, List.mem_of_find?_eq_some hfind, hs, rfl⟩
  · cases h

/-- **One more source.** -/
theorem tidy_ask (h : e.Tidy requests)
    (hkey : ∀ other ∈ requests, e.fingerprint other = e.fingerprint source → other = source) :
    (e.ask source).Tidy (requests ++ [source]) := by
  cases hc : e.cached? source with
  | some shader =>
    obtain ⟨entry, hentry, rfl, -⟩ := exists_of_cached? hc
    rw [ask_of_cached hc]
    exact h.concat (.inl (List.mem_map_of_mem hentry))
  | none =>
    cases hp : Program.parse source with
    | ok p =>
      rw [ask_of_parse hc hp]
      exact tidy_learn h (h.ne_of_cached?_eq_none hkey hc) hp
    | error f =>
      rw [ask_of_refused hc hp]
      refine h.concat (.inr ?_)
      rw [Program.accepts, hp]
      rfl

/-- **All sources.** -/
theorem tidy_askAll (h : e.Tidy requests) (hinj : Set.InjOn e.fingerprint {s | s ∈ requests ++ sources}) :
    (e.askAll sources).Tidy (requests ++ sources) := by
  induction sources generalizing e requests with
  | nil =>
    rw [List.append_nil]
    exact h
  | cons source sources ih =>
    -- the sources that were asked for before are part of the invariant: the next one must differ from all of them
    have hsplit : requests ++ source :: sources = (requests ++ [source]) ++ sources := by simp
    rw [hsplit] at hinj ⊢
    refine ih (tidy_ask h fun other hother hsame => hinj ?_ ?_ hsame) (by rwa [fingerprint_ask])
    · exact List.mem_append_left _ (List.mem_append_left _ hother)
    · exact List.mem_append_left _ List.mem_concat_self

/-- sources with different handles are different, and the other way round -/
theorem Tidy.handle_eq_iff (h : e.Tidy requests) {shader' : ShaderHandle} (hs : e.cached? source = some shader)
    (ho : e.cached? other = some shader') : shader = shader' ↔ source = other := by
  constructor
  · rintro rfl
    obtain ⟨entry, hentry, rfl, hshader⟩ := exists_of_cached? hs
    obtain ⟨entry', hentry', rfl, hshader'⟩ := exists_of_cached? ho
    have hnodup : (e.cache.map (·.shader.index)).Nodup := by
      rw [h.handles]
      exact List.nodup_reverse.2 List.nodup_range
    have hindex : entry.shader.index = entry'.shader.index := by rw [hshader, hshader']
    rw [List.inj_on_of_nodup_map hnodup hentry hentry' hindex]
  · rintro rfl
    exact Option.some.inj (hs.symm.trans ho)

/-- as many shaders are kept, and on the device, as there are sources with a program -/
theorem Tidy.length_eq (h : e.Tidy requests) :
    e.cache.length = e.device.programs.size ∧
      e.device.programs.size = (requests.filter Program.accepts).toFinset.card := by
  have hlength : e.cache.length = e.device.programs.size := by
    simpa using congrArg List.length h.handles
  refine ⟨hlength, ?_⟩
  have hsame : (e.cache.map (·.source)).toFinset = (requests.filter Program.accepts).toFinset := by
    ext source
    rw [List.mem_toFinset, List.mem_toFinset, List.mem_filter, h.sources]
  rw [← hsame, List.toFinset_card_of_nodup h.nodup, List.length_map, hlength]

/-! ## Compiling again -/

theorem buildStep_of_obtain {localSize : Nat} (hls : e.localSize = localSize) {g : Group}
    (h : obtain (Shader.render localSize g.calls) e = .ok shader e') :
    buildStep g e = .ok ⟨Shader.render localSize g.calls, shader, g.workSize, localSize,
      (g.workSize + localSize - 1) / localSize, g.commands⟩ e' := by
  rw [buildStep_eq, hls, h]

theorem buildStep_of_refused {localSize : Nat} (hls : e.localSize = localSize) {g : Group} {f : Failure}
    (h : obtain (Shader.render localSize g.calls) e = .error f e') : buildStep g e = .error f e' := by
  rw [buildStep_eq, hls, h]

theorem stateAfter_mapM_buildStep {g : Group} {step : Step} (h : buildStep g e = .ok step e') (gs : List Group) :
    stateAfter ((g :: gs).mapM buildStep e) = stateAfter (gs.mapM buildStep e') := by
  rw [mapM_buildStep_cons, h]
  simp only
  cases gs.mapM buildStep e' <;> rfl

/-- where the first step and all others are built again without a change, so are they in a row -/
theorem mapM_buildStep_inState {e₂ : Executor HostDevice} {g : Group} {gs : List Group} {step : Step}
    (hfirst : buildStep g e = .ok step e') (hagain : buildStep g e₂ = .ok step e₂)
    (hrest : gs.mapM buildStep e₂ = inState (gs.mapM buildStep e') e₂) :
    (g :: gs).mapM buildStep e₂ = inState ((g :: gs).mapM buildStep e) e₂ := by
  rw [mapM_buildStep_cons, hagain, mapM_buildStep_cons, hfirst]
  simp only [hrest]
  cases gs.mapM buildStep e' <;> rfl

/-- building the steps of groups asks for their sources, up to the first that is refused. If no other source with one of
their fingerprints was asked for since, building them again ends in the same way and changes nothing -/
theorem mapM_buildStep_again (h : e.Honest) (gs : List Group) :
    ∃ own, own <+: gs.map (fun g => Shader.render e.localSize g.calls) ∧
      stateAfter (gs.mapM buildStep e) = e.askAll own ∧
      ∀ later, Set.InjOn e.fingerprint {s | s ∈ own ++ later} →
        gs.mapM buildStep (e.askAll (own ++ later)) = inState (gs.mapM buildStep e) (e.askAll (own ++ later)) := by
  induction gs generalizing e with
  | nil => exact ⟨[], List.nil_prefix, rfl, fun _ _ => rfl⟩
  | cons g gs ih =>
    generalize hsource : Shader.render e.localSize g.calls = source
    rcases obtain_cases h source with ⟨p, shader, e', -, hobtain, hfollows, -⟩ | ⟨f, hp, hobtain⟩
    · obtain ⟨own, hown, hstate, hagain⟩ := ih hfollows.honest
      have hask : e.ask source = e' := ask_of_obtain hobtain
      have hfingerprint : e'.fingerprint = e.fingerprint := hask ▸ fingerprint_ask e source
      have hbuild := buildStep_of_obtain rfl (hsource ▸ hobtain)
      refine ⟨source :: own, ?_, ?_, ?_⟩
      · rw [List.map_cons, hsource, ← hfollows.localSize]
        exact List.cons_prefix_cons.2 ⟨rfl, hown⟩
      · rw [stateAfter_mapM_buildStep hbuild, hstate, ← hask]
        rfl
      · intro later hinj
        have hstart : e.askAll (source :: own ++ later) = e'.askAll (own ++ later) := by
          rw [← hask]
          rfl
        -- what was answered first is still kept behind the other groups and all later sources
        have hkept : (e'.askAll (own ++ later)).cached? source = some shader := by
          refine cached?_askAll (fun other hother hsame => ?_) (cached?_of_obtain hobtain)
          rw [hfingerprint] at hsame
          exact hinj List.mem_cons_self (List.mem_cons_of_mem source hother) hsame
        have hls := (follows_askAll hfollows.honest (own ++ later)).localSize.trans hfollows.localSize
        have hbuild' := buildStep_of_obtain hls (hsource ▸ obtain_of_cached hkept)
        have hrest := hagain later (hfingerprint ▸ hinj.mono fun s hs => List.mem_cons_of_mem source hs)
        rw [hstart]
        exact mapM_buildStep_inState hbuild hbuild' hrest
    · -- the first source that is refused ends the list, now and later
      have hbuild := buildStep_of_refused rfl (hsource ▸ hobtain)
      refine ⟨[], List.nil_prefix, ?_, ?_⟩
      · rw [mapM_buildStep_cons, hbuild]
        rfl
      · intro later _
        have hlater := follows_askAll h later
        have hbuild' := buildStep_of_refused hlater.localSize (hsource ▸ obtain_of_refused hlater.honest hp)
        rw [List.nil_append, mapM_buildStep_cons, hbuild', mapM_buildStep_cons, hbuild]
        rfl

/-- compiling a description, and compiling it again after other sources were asked for -/
theorem compile_again (h : e.Honest) (d : Directory) (description : Description) :
    ∃ own, own <+: groupSources e.localSize d description ∧
      stateAfter (Executor.compile d description e) = e.askAll own ∧
      ∀ later, Set.InjOn e.fingerprint {s | s ∈ own ++ later} →
        Executor.compile d description (e.askAll (own ++ later)) =
          inState (Executor.compile d description e) (e.askAll (own ++ later)) := by
  unfold Executor.compile groupSources
  cases plan d description with
  | error f => exact ⟨[], List.nil_prefix, rfl, fun _ _ => rfl⟩
  | ok planned =>
    obtain ⟨layout, gs⟩ := planned
    obtain ⟨own, hown, hstate, hagain⟩ := mapM_buildStep_again h gs
    refine ⟨own, hown, ?_, ?_⟩
    · rw [← hstate]
      simp only
      cases gs.mapM buildStep e <;> rfl
    · intro later hinj
      have hls := (follows_askAll h (own ++ later)).localSize
      have hfollows := follows_mapM_buildStep h gs
      simp only [hagain later hinj]
      cases hsteps : gs.mapM buildStep e with
      | error f e' => rfl
      | ok steps e' =>
        rw [hsteps] at hfollows
        have hls' : e'.localSize = e.localSize := hfollows.localSize
        simp only [inState, hls, hls']

/-! ## Histories of requests -/

/-- an executor with a device of its own, asked for sources one after the other -/
def served (fingerprint : String → UInt64) (localSize : UInt64) (requests : List String) : Executor HostDevice :=
  (fresh fingerprint localSize.toNat).askAll requests

variable {fingerprint : String → UInt64} {localSize : UInt64}

theorem honest_served (fingerprint : String → UInt64) (localSize : UInt64) (requests : List String) :
    (served fingerprint localSize requests).Honest :=
  (follows_askAll (honest_fresh fingerprint localSize.toNat_lt) requests).honest

theorem served_append (fingerprint : String → UInt64) (localSize : UInt64) (requests later : List String) :
    served fingerprint localSize (requests ++ later) = (served fingerprint localSize requests).askAll later :=
  askAll_append _ requests later

theorem fingerprint_served (fingerprint : String → UInt64) (localSize : UInt64) (requests : List String) :
    (served fingerprint localSize requests).fingerprint = fingerprint := fingerprint_askAll _ requests

theorem tidy_served (hinj : Set.InjOn fingerprint {s | s ∈ requests}) :
    (served fingerprint localSize requests).Tidy requests := by
  have hfresh : (fresh fingerprint localSize.toNat).Tidy [] := ⟨nofun, by simp [fresh, withLocalSize], .nil, rfl⟩
  exact tidy_askAll hfresh hinj

/-- what was answered for a source is kept, if no two fingerprints are the same -/
theorem cached?_served {later : List String} (hinj : Set.InjOn fingerprint {s | s ∈ requests ++ source :: later})
    (h : obtain source (served fingerprint localSize requests) = .ok shader e) :
    (served fingerprint localSize (requests ++ source :: later)).cached? source = some shader := by
  have hstart : served fingerprint localSize (requests ++ source :: later) = e.askAll later := by
    rw [served_append, ← ask_of_obtain h]
    rfl
  have hfingerprint : e.fingerprint = fingerprint := by
    rw [← ask_of_obtain h, fingerprint_ask, fingerprint_served]
  rw [hstart]
  refine cached?_askAll (fun other hother hsame => ?_) (cached?_of_obtain h)
  rw [hfingerprint] at hsame
  exact hinj (by simp) (by simp [hother]) hsame

/-- whether an executor `behind` requests answers a source a shader that runs a certain program, whatever the executor
is used for later -/
def Answers (behind : List String → Executor HostDevice) (requests : List String) (source : String)
    (p : Program) : Prop :=
  ∃ shader, obtain source (behind requests) = .ok shader (behind (requests ++ [source])) ∧
    ∀ later us, ((behind (requests ++ source :: later)).uses us).device.programs[shader.index]? = some p

theorem answers_of_parse {p : Program} (hp : Program.parse source = .ok p) :
    Answers (served fingerprint localSize) requests source p := by
  rcases obtain_cases (honest_served fingerprint localSize requests) source with
    ⟨p', shader, e', hp', hobtain, hfollows, hheld⟩ | ⟨f, hf, -⟩
  · cases hp.symm.trans hp'
    have hask := ask_of_obtain hobtain
    refine ⟨shader, ?_, ?_⟩
    · rw [hobtain, served_append, ← hask]
      rfl
    · intro later us
      have hlater := follows_askAll hfollows.honest later
      rw [served_append, askAll, List.foldl_cons, hask]
      exact (later_uses hlater.honest us).programs _ _ (hlater.programs _ _ hheld)
  · cases hp.symm.trans hf

/-- how an executor keeps its shaders that is `behind` requests, whatever they were -/
structure KeepsShaders (fingerprint : String → UInt64) (behind : List String → Executor HostDevice)
    (requests : List String) : Prop where
  /-- a source with a program is answered a shader that runs this program, then and ever after -/
  answered : ∀ source p, Program.parse source = .ok p → Answers behind requests source p
  /-- so is every source that was rendered -/
  rendered : ∀ source, Shader.Rendered source → ∃ p, Program.parse source = .ok p ∧ Answers behind requests source p
  /-- any other source is refused, and nothing changes -/
  refused : ∀ source f, Program.parse source = .error f →
    obtain source (behind requests) = .error (.refused f) (behind requests)
  /-- if no two fingerprints are the same, sources are answered the same handle exactly if they are the same -/
  handles : Set.InjOn fingerprint {s | s ∈ requests} →
    ∀ before first between second later shader shader' e e',
      requests = before ++ first :: (between ++ second :: later) →
      obtain first (behind before) = .ok shader e →
      obtain second (behind (before ++ first :: between)) = .ok shader' e' →
      (shader = shader' ↔ first = second)
  /-- and as many shaders are kept, and on the device, as there are different sources with a program -/
  count : Set.InjOn fingerprint {s | s ∈ requests} →
    (behind requests).cache.length = (behind requests).device.shaderCount ∧
      (behind requests).device.shaderCount = (requests.filter Program.accepts).toFinset.card
  /-- which is every source, if all of them were rendered -/
  countRendered : Set.InjOn fingerprint {s | s ∈ requests} → (∀ source ∈ requests, Shader.Rendered source) →
    (behind requests).device.shaderCount = requests.toFinset.card
  /-- compiling a description asks for sources of its groups. Compiling it again, after any other sources, ends in the
  same way and leaves the executor as it is, if no two of these fingerprints are the same -/
  compiled : ∀ d description, ∃ own, own <+: groupSources (behind requests).localSize d description ∧
    stateAfter (Executor.compile d description (behind requests)) = behind (requests ++ own) ∧
    ∀ later, Set.InjOn fingerprint {s | s ∈ own ++ later} →
      Executor.compile d description (behind (requests ++ (own ++ later))) =
        inState (Executor.compile d description (behind requests)) (behind (requests ++ (own ++ later)))

/-- **Kept shaders.** Whatever an executor was asked for, and whatever the fingerprints are, no source is answered a
shader of another one. If no two fingerprints are the same, no source is compiled twice. -/
theorem keeps_shaders (fingerprint : String → UInt64) (localSize : UInt64) (requests : List String) :
    KeepsShaders fingerprint (served fingerprint localSize) requests where
  answered := fun source p hp => answers_of_parse hp
  rendered := fun source h => by
    obtain ⟨p, hp⟩ := Program.accepts_iff.1 h.accepts
    exact ⟨p, hp, answers_of_parse hp⟩
  refused := fun source f hf => obtain_of_refused (honest_served fingerprint localSize requests) hf
  handles := fun hinj before first between second later shader shader' e e' hrequests hfirst hsecond => by
    subst hrequests
    have hsplit : before ++ first :: (between ++ second :: later) =
        (before ++ first :: between) ++ second :: later := by simp
    have hkept := cached?_served hinj hfirst
    have hkept' := cached?_served (hsplit ▸ hinj) hsecond
    rw [← hsplit] at hkept'
    exact (tidy_served hinj).handle_eq_iff hkept hkept'
  count := fun hinj => (tidy_served hinj).length_eq
  countRendered := fun hinj hrendered => by
    have htidy : (served fingerprint localSize requests).Tidy requests := tidy_served hinj
    have hall : requests.filter Program.accepts = requests :=
      List.filter_eq_self.2 fun source hsource => (hrendered source hsource).accepts
    have hcount := htidy.length_eq.2
    rwa [hall] at hcount
  compiled := fun d description => by
    have hhonest := honest_served fingerprint localSize requests
    obtain ⟨own, hown, hstate, hagain⟩ := compile_again hhonest d description
    refine ⟨own, hown, ?_, ?_⟩
    · rw [hstate, served_append]
    · intro later hinj
      rw [served_append]
      exact hagain later (by rwa [fingerprint_served])

/-- a fingerprint that tells one source from all others -/
def tellApart (source other : String) : UInt64 := if other = source then 1 else 0

/-- two shaders, one that doubles two numbers and one that does nothing. Under one fingerprint for all, the first is
still answered for its source after the other one took its place. With different fingerprints the two are compiled once,
and so is what a description comes to -/
theorem keeps_shaders_sample : ∃ doubling idle : String,
    Program.parse doubling = .ok ⟨4, [.scale 0 0 2 ⟨0x40000000⟩]⟩ ∧ Program.parse idle = .ok ⟨4, []⟩ ∧
    (∃ shader, obtain doubling (served (fun _ => 0) 4 [doubling, idle]) =
        .ok shader (served (fun _ => 0) 4 [doubling, idle, doubling]) ∧
      (served (fun _ => 0) 4 [doubling, idle, doubling]).device.programs[shader.index]? =
        some ⟨4, [.scale 0 0 2 ⟨0x40000000⟩]⟩) ∧
    (served (tellApart idle) 4 [doubling, idle, doubling]).device.shaderCount = 2 ∧
    ∃ e, stateAfter (Executor.compile Session.pairBuffer.directory ⟨["a = multiply a 2"]⟩
        (served fingerprintOf 4 [doubling])) = e ∧
      stateAfter (Executor.compile Session.pairBuffer.directory ⟨["a = multiply a 2"]⟩ e) = e := by
  have hdoubles : ∀ c ∈ [Shader.Call.scale 0 0 2 ⟨0x40000000⟩], c.Sized := by decide +kernel
  have hdoubling : Program.parse (Shader.render 4 [.scale 0 0 2 ⟨0x40000000⟩]) = .ok ⟨4, [.scale 0 0 2 ⟨0x40000000⟩]⟩ :=
    (HostDevice.compile_render (by decide) (by decide) hdoubles).2 (by decide +kernel)
  have hidle : Program.parse (Shader.render 4 []) = .ok ⟨4, []⟩ :=
    Program.parse_render (by decide) (by decide) nofun
  have hrendered : Shader.Rendered (Shader.render 4 [.scale 0 0 2 ⟨0x40000000⟩]) ∧
      Shader.Rendered (Shader.render 4 []) :=
    ⟨⟨4, _, by decide, by decide, hdoubles, rfl⟩, ⟨4, [], by decide, by decide, nofun, rfl⟩⟩
  refine ⟨_, _, hdoubling, hidle, ?_⟩
  generalize Shader.render 4 [.scale 0 0 2 ⟨0x40000000⟩] = doubling at hdoubling hrendered ⊢
  generalize Shader.render 4 [] = idle at hidle hrendered ⊢
  have hne : idle ≠ doubling := by
    rintro rfl
    cases hidle.symm.trans hdoubling
  refine ⟨?_, ?_, ?_⟩
  · obtain ⟨shader, hobtain, hheld⟩ := (keeps_shaders (fun _ => 0) 4 [doubling, idle]).answered doubling _ hdoubling
    have hnow := hheld [] []
    rw [uses, List.foldl_nil] at hnow
    exact ⟨shader, hobtain, hnow⟩
  · have hinj : Set.InjOn (tellApart idle) {s | s ∈ [doubling, idle, doubling]} := by
      have hapart : tellApart idle doubling ≠ tellApart idle idle := by simp [tellApart, hne.symm]
      intro s hs t ht hsame
      simp only [Set.mem_ofPred_eq, List.mem_cons, List.not_mem_nil, or_false] at hs ht
      rcases hs with rfl | rfl | rfl <;> rcases ht with rfl | rfl | rfl <;> simp_all
    have hall : ∀ source ∈ [doubling, idle, doubling], Shader.Rendered source := by
      simp only [List.forall_mem_cons]
      exact ⟨hrendered.1, hrendered.2, hrendered.1, nofun⟩
    have hcard : [doubling, idle, doubling].toFinset.card = 2 := by
      have hdistinct : [doubling, idle, doubling].toFinset = {idle, doubling} := by
        ext s
        simp only [List.mem_toFinset, List.mem_cons, List.not_mem_nil, or_false, Finset.mem_insert,
          Finset.mem_singleton]
        tauto
      rw [hdistinct, Finset.card_pair hne]
    have hcount := (keeps_shaders (tellApart idle) 4 [doubling, idle, doubling]).countRendered hinj hall
    exact hcount.trans hcard
  · obtain ⟨own, hown, hstate, hagain⟩ :=
      (keeps_shaders fingerprintOf 4 [doubling]).compiled Session.pairBuffer.directory ⟨["a = multiply a 2"]⟩
    have hinj : Set.InjOn fingerprintOf {s | s ∈ own ++ []} := by
      intro s hs t ht _
      rw [List.append_nil] at hs ht
      simp only [groupSources, Session.plan_double, List.map_singleton] at hown
      rw [List.mem_singleton.1 (hown.subset hs), List.mem_singleton.1 (hown.subset ht)]
    have hrepeat := hagain [] hinj
    rw [List.append_nil] at hrepeat
    exact ⟨_, hstate, (congrArg stateAfter hrepeat).trans (stateAfter_inState _ _)⟩

end Executor

end Gpu

end ArrayEngine
