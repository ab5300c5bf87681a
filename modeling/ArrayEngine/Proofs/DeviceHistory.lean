/-
What the host device answers depends only on the requests before, and how.

`HostDevice.after` makes a list of requests of an empty device, one after the other, and notes how each of them ended. A
request that fails does not end the list: the next one is made of the device as it then is.
- `dispatchInPlace` is a dispatch that works on the buffer itself, so that a failure in its middle would leave half of
  its work behind. No invocation fails behind the check of the extents, and so it is the dispatch
  (`dispatch_eq_inPlace`);
- `Carried` says what a request does that is carried out; any other one changes nothing (`ask_cases`);
- `Kept` is the invariant of the device and its notes: the programs are those of the sources that were compiled, in
  order, and the buffer is the one that was last submitted, as long as it was, and number by number until something runs
  on it;
- `orderly`: so every answer is the one that the notes call for.
-/
import ArrayEngine.Proofs.Protocol

namespace ArrayEngine

open Device (Request Note)
open Shader (Call)

/-! ## Bytes -/

namespace Bytes

theorem ofWord_toWord (a b c d : UInt8) : ofWord (toWord a b c d) = [a, b, c, d] := by
  simp only [ofWord, List.cons.injEq, and_true]
  refine ⟨?_, ?_, ?_, ?_⟩ <;>
  · apply UInt8.toBitVec_inj.1
    apply BitVec.eq_of_getLsbD_eq
    intro i hi
    simp only [toWord, UInt32.toBitVec_or, UInt32.toBitVec_shiftLeft, UInt8.toBitVec_toUInt32, UInt32.toBitVec_toUInt8,
      UInt32.toBitVec_shiftRight]
    -- a bit of one byte is not a bit of another one
    simp [BitVec.getLsbD_setWidth, hi] <;> grind

/-- whole words lose nothing -/
theorem ofWords_toWords {bytes : List UInt8} (h : bytes.length % Size.wordBytes = 0) :
    ofWords (toWords bytes) = bytes := by
  induction bytes using toWords.induct with
  | case1 a b c d rest ih =>
    have hrest : rest.length % Size.wordBytes = 0 := by
      simp only [List.length_cons, Size.wordBytes] at h ⊢
      omega
    calc ofWords (toWords (a :: b :: c :: d :: rest)) = ofWord (toWord a b c d) ++ ofWords (toWords rest) := rfl
      _ = a :: b :: c :: d :: rest := by rw [ofWord_toWord, ih hrest]; rfl
  | case2 bytes hshort =>
    rcases bytes with _ | ⟨a, _ | ⟨b, _ | ⟨c, _ | ⟨d, rest⟩⟩⟩⟩
    · rfl
    · cases h
    · cases h
    · cases h
    · exact absurd rfl (hshort a b c d rest)

end Bytes

/-- the numbers that bytes stand for -/
def DeviceMemory.ofBytes (bytes : List UInt8) : DeviceMemory := ((Bytes.toWords bytes).map Single.mk).toArray

/-- the bytes of the numbers of a memory -/
def DeviceMemory.bytes (m : DeviceMemory) : List UInt8 := Bytes.ofWords (m.toList.map Single.bits)

theorem DeviceMemory.size_ofBytes (bytes : List UInt8) : (ofBytes bytes).size = bytes.length / Size.wordBytes := by
  simp [ofBytes, Bytes.length_toWords]

theorem DeviceMemory.bytes_ofBytes {bytes : List UInt8} (h : bytes.length % Size.wordBytes = 0) :
    (ofBytes bytes).bytes = bytes := by
  simp [ofBytes, DeviceMemory.bytes, Function.comp_def, Bytes.ofWords_toWords h]

/-! ## Dispatches that work on the buffer itself -/

/-- a call whose extent lies inside a memory touches nothing outside it -/
theorem Shader.Call.fits_of_extent {c : Call} {k n : Nat} (h : c.extent = .ok k) (hk : k ≤ n) : c.Fits n := by
  cases c with
  | scale dest src len factor =>
    simp only [extent, bind_eq_ok, Size.add_eq_ok, pure_eq_ok] at h
    obtain ⟨_, ⟨-, rfl⟩, _, ⟨-, rfl⟩, rfl⟩ := h
    exact ⟨by omega, by omega⟩
  | product dest matrix vector rows cols =>
    simp only [extent, bind_eq_ok, Size.add_eq_ok, Size.mul_eq_ok, pure_eq_ok] at h
    obtain ⟨_, ⟨-, rfl⟩, _, ⟨-, rfl⟩, _, ⟨-, rfl⟩, _, ⟨-, rfl⟩, rfl⟩ := h
    exact ⟨by omega, by omega, by omega⟩
  | add dest lhs rhs len =>
    simp only [extent, bind_eq_ok, Size.add_eq_ok, pure_eq_ok] at h
    obtain ⟨_, ⟨-, rfl⟩, _, ⟨-, rfl⟩, _, ⟨-, rfl⟩, rfl⟩ := h
    exact ⟨by omega, by omega, by omega⟩

theorem fits_of_checkExtents {n : Nat} {calls : List Call} {u : Unit} (h : checkExtents n calls = .ok u) :
    ∀ c ∈ calls, c.Fits n := by
  intro c hc
  have hcheck := forM_eq_ok.1 h c hc
  obtain ⟨k, hk, hle⟩ := bind_eq_ok.1 hcheck
  rw [lift_fault_eq_ok] at hk
  split_ifs at hle with hlt
  exact Call.fits_of_extent hk (Nat.not_lt.1 hlt)

namespace DeviceMemory

/-- the invocations below `n` of each call, in the order in which they run -/
def invocations (calls : List Call) (n : Nat) : List (Nat × Call) :=
  (List.range n).flatMap fun gid => calls.map fun c => (gid, c)

/-- invocations that write into the memory one after the other, until one of them fails -/
def runInPlace (calls : List Call) (n : Nat) (m : DeviceMemory) : Run DeviceMemory :=
  Run.once (fun x : Nat × Call => Run.attempt fun m => liftM (m.invoke x.1 x.2)) (invocations calls n) 0 m

/-- inside the memory, no invocation fails -/
theorem runInPlace_eq {calls : List Call} {m : DeviceMemory} (h : ∀ c ∈ calls, c.Fits m.size) (n : Nat) :
    (m.runInPlace calls n).state = m.sweep calls n ∧ (m.runInPlace calls n).failure = none := by
  have hstep : ∀ x ∈ invocations calls n, ∀ m' : DeviceMemory, m'.size = m.size →
      Run.attempt (fun m => liftM (m.invoke x.1 x.2)) m' = .ok () (x.2.effect x.1 m') ∧
        (x.2.effect x.1 m').size = m.size := by
    intro x hx m' hm'
    obtain ⟨gid, -, hx⟩ := List.mem_flatMap.1 hx
    obtain ⟨c, hc, rfl⟩ := List.mem_map.1 hx
    have hfits : c.Fits m'.size := hm' ▸ h c hc
    refine ⟨?_, (c.size_effect gid m').trans hm'⟩
    simp only [Run.attempt, Call.invoke_eq hfits gid, ok_lift_fault]
  obtain ⟨hrun, -⟩ := Run.once_eq (P := fun m' : DeviceMemory => m'.size = m.size)
    (f := fun m (x : Nat × Call) => x.2.effect x.1 m) hstep 0 rfl
  have hsweep : (invocations calls n).foldl (fun m x => x.2.effect x.1 m) m = m.sweep calls n := by
    simp only [invocations, List.foldl_flatMap, List.foldl_map, sweep, effects]
  rw [runInPlace, hrun]
  exact ⟨hsweep, rfl⟩

end DeviceMemory

namespace HostDevice

/-- a dispatch that works on the buffer of the device itself: what an invocation wrote stays, also if a later one
fails -/
def dispatchInPlace (shader : ShaderHandle) (workgroups : Nat) : EStateM Failure HostDevice Unit := fun d =>
  match d.programs[shader.index]?, d.memory with
  | none, _ => .error (.refused (.device (.unknownShader shader.index))) d
  | some _, none => .error (.refused (.device .nothingToRunOn)) d
  | some p, some m =>
    match (do checkExtents m.size p.calls; Size.mul workgroups p.localSize : Except Failure Nat) with
    | .error f => .error f d
    | .ok n =>
      match m.runInPlace p.calls n with
      | ⟨m, _, none⟩ => .ok () ⟨some m, d.programs⟩
      | ⟨m, _, some f⟩ => .error f ⟨some m, d.programs⟩

/-- **No half work.** A dispatch fails before its first invocation or not at all, so that it does not matter whether it
works on the buffer or on a copy of it. -/
theorem dispatch_eq_inPlace (shader : ShaderHandle) (workgroups : Nat) (d : HostDevice) :
    Device.dispatch shader workgroups d = dispatchInPlace shader workgroups d := by
  simp only [Device.dispatch, Run.attempt, dispatch, dispatchInPlace]
  cases d.programs[shader.index]? with
  | none => rfl
  | some p =>
    cases d.memory with
    | none => rfl
    | some m =>
      simp only
      cases hcheck : checkExtents m.size p.calls with
      | error f => rfl
      | ok _ =>
        have hfits := fits_of_checkExtents hcheck
        simp only [ok_bind]
        cases Size.mul workgroups p.localSize with
        | error f => rfl
        | ok n =>
          obtain ⟨hstate, hfailure⟩ := DeviceMemory.runInPlace_eq hfits n
          simp only [ok_lift_fault, ok_bind, DeviceMemory.run_eq hfits n, pure_eq]
          generalize m.runInPlace p.calls n = run at hstate hfailure
          obtain ⟨m', begun, failure⟩ := run
          cases hstate
          cases hfailure
          rfl

end HostDevice

/-! ## Requests one after the other -/

/-- an observed device after one more request, however it ends -/
def Observed.ask {δ : Type} [Device δ] (o : Observed δ) : Request → Observed δ
  | .submit bytes => stateAfter (Device.submit bytes o)
  | .compile source => stateAfter (Device.compile source o)
  | .dispatch shader workgroups => stateAfter (Device.dispatch shader workgroups o)
  | .retrieve size => stateAfter (Device.retrieve size o)

namespace HostDevice

/-- an empty device after requests, with notes of how they ended -/
def after (requests : List Request) : Observed HostDevice := requests.foldl Observed.ask ⟨.empty, []⟩

theorem after_concat (requests : List Request) (r : Request) : after (requests ++ [r]) = (after requests).ask r :=
  List.foldl_append ..

/-- what a request does to a device that carries it out -/
inductive Carried (d : HostDevice) : Request → HostDevice → Prop
  | submit {bytes : List UInt8} (hwhole : bytes.length % Size.wordBytes = 0) :
      Carried d (.submit bytes) ⟨some (.ofBytes bytes), d.programs⟩
  | compile {source : String} {p : Program} (hp : Program.parse source = .ok p) :
      Carried d (.compile source) ⟨d.memory, d.programs.push p⟩
  | dispatch {shader : ShaderHandle} {workgroups : Nat} {p : Program} {m : DeviceMemory}
      (hp : d.programs[shader.index]? = some p) (hm : d.memory = some m) (hfits : ∀ c ∈ p.calls, c.Fits m.size) :
      Carried d (.dispatch shader workgroups) ⟨some (m.sweep p.calls (workgroups * p.localSize)), d.programs⟩
  | retrieve {m : DeviceMemory} (hm : d.memory = some m) : Carried d (.retrieve (Size.wordBytes * m.size)) d

theorem submit_eq (bytes : List UInt8) (d : HostDevice) :
    Device.submit bytes d = if bytes.length % Size.wordBytes = 0 then .ok () ⟨some (.ofBytes bytes), d.programs⟩
      else .error (.refused (.device (.partialElement bytes.length))) d := by
  simp only [Device.submit, Run.attempt, submit]
  split_ifs <;> rfl

theorem compile_eq (source : String) (d : HostDevice) :
    Device.compile source d = match Program.parse source with
      | .ok p => .ok ⟨d.programs.size⟩ ⟨d.memory, d.programs.push p⟩
      | .error f => .error (.refused f) d := by
  simp only [Device.compile]
  cases hp : Program.parse source with
  | ok p => rw [compile_of_ok hp]
  | error f => rw [compile_of_error hp]

theorem retrieve_eq (size : Nat) (d : HostDevice) :
    Device.retrieve size d = match d.memory with
      | none => .error (.refused (.device .nothingToRetrieve)) d
      | some m => if Size.wordBytes * m.size = size then .ok m.bytes d
        else .error (.refused (.device (.retrieveSize size (Size.wordBytes * m.size)))) d := by
  simp only [Device.retrieve, retrieve]
  cases d.memory with
  | none => rfl
  | some m =>
    simp only
    split_ifs <;> rfl

/-- a request that is carried out, or that fails and leaves the device as it is, is noted as such -/
theorem noting_cases {α : Type} {r : Request} {act : EStateM Failure HostDevice α} {o : Observed HostDevice}
    (h : (∃ a d, act o.device = .ok a d ∧ Carried o.device r d) ∨ ∃ f, act o.device = .error f o.device) :
    (∃ d, Carried o.device r d ∧ stateAfter (Observed.noting r act o) = ⟨d, o.log ++ [.done r]⟩) ∨
      ∃ f, stateAfter (Observed.noting r act o) = ⟨o.device, o.log ++ [.failed r f]⟩ := by
  rcases h with ⟨a, d, hact, hd⟩ | ⟨f, hact⟩
  · refine .inl ⟨d, hd, ?_⟩
    simp only [Observed.noting, hact, stateAfter]
  · refine .inr ⟨f, ?_⟩
    simp only [Observed.noting, hact, stateAfter]

theorem ask_cases (o : Observed HostDevice) (r : Request) :
    (∃ d, Carried o.device r d ∧ o.ask r = ⟨d, o.log ++ [.done r]⟩) ∨
      ∃ f, o.ask r = ⟨o.device, o.log ++ [.failed r f]⟩ := by
  cases r with
  | submit bytes =>
    apply noting_cases
    rw [submit_eq]
    split_ifs with hwhole
    · exact .inl ⟨(), _, rfl, .submit hwhole⟩
    · exact .inr ⟨_, rfl⟩
  | compile source =>
    apply noting_cases
    rw [compile_eq]
    cases hp : Program.parse source with
    | ok p => exact .inl ⟨_, _, rfl, .compile hp⟩
    | error f => exact .inr ⟨_, rfl⟩
  | dispatch shader workgroups =>
    apply noting_cases
    cases hrun : o.device.dispatch shader workgroups with
    | ok d =>
      obtain ⟨p, m, k, m', hp, hm, hcheck, hk, hm', rfl⟩ := dispatch_eq_ok.1 hrun
      have hfits := fits_of_checkExtents hcheck
      obtain ⟨-, rfl⟩ := Size.mul_eq_ok.1 hk
      rw [DeviceMemory.run_eq hfits] at hm'
      cases hm'
      exact .inl ⟨(), _, by simp only [Device.dispatch, Run.attempt, hrun], .dispatch hp hm hfits⟩
    | error f => exact .inr ⟨f, by simp only [Device.dispatch, Run.attempt, hrun]⟩
  | retrieve size =>
    apply noting_cases
    rw [retrieve_eq]
    cases hm : o.device.memory with
    | none => exact .inr ⟨_, rfl⟩
    | some m =>
      simp only
      split_ifs with hsize
      · exact .inl ⟨_, _, rfl, hsize ▸ .retrieve hm⟩
      · exact .inr ⟨_, rfl⟩

/-! ## What the notes say -/

/-- the sources that were compiled, in order -/
def compiled (log : List Note) : List String :=
  log.filterMap fun note =>
    match note with
    | ⟨.compile source, none⟩ => some source
    | _ => none

/-- whether bytes are the last ones that were submitted; `since` are the notes behind their submission -/
structure LastSubmitted (log : List Note) (bytes : List UInt8) (since : List Note) : Prop where
  submitted : ∃ before, log = before ++ .done (.submit bytes) :: since
  last : ∀ other, Note.done (.submit other) ∉ since

/-- the bytes last submitted, with one more note -/
theorem lastSubmitted_concat {log since : List Note} {note : Note} {bytes : List UInt8} :
    LastSubmitted (log ++ [note]) bytes since ↔ (note = .done (.submit bytes) ∧ since = []) ∨
      (∀ other, note ≠ .done (.submit other)) ∧
        ∃ since', since = since' ++ [note] ∧ LastSubmitted log bytes since' := by
  constructor
  · rintro ⟨⟨before, heq⟩, hlast⟩
    rcases List.eq_nil_or_concat since with rfl | ⟨since', x, rfl⟩
    · obtain ⟨-, hnote⟩ := List.append_inj' heq rfl
      exact .inl ⟨List.head_eq_of_cons_eq hnote, rfl⟩
    · rw [List.concat_eq_append] at heq hlast ⊢
      have hsplit : log ++ [note] = (before ++ .done (.submit bytes) :: since') ++ [x] := by
        rw [heq, List.append_assoc, List.cons_append]
      obtain ⟨rfl, hx⟩ := List.append_inj' hsplit rfl
      cases hx
      refine .inr ⟨?_, since', rfl, ⟨before, rfl⟩, ?_⟩
      · rintro other rfl
        exact hlast other List.mem_concat_self
      · intro other hmem
        exact hlast other (List.mem_append_left _ hmem)
  · rintro (⟨rfl, rfl⟩ | ⟨hnote, since', rfl, ⟨before, rfl⟩, hlast⟩)
    · exact ⟨⟨log, rfl⟩, fun _ hmem => nomatch hmem⟩
    · refine ⟨⟨before, List.append_assoc _ _ _⟩, ?_⟩
      intro other hmem
      rcases List.mem_append.1 hmem with hmem | hmem
      · exact hlast other hmem
      · exact hnote other (List.mem_singleton.1 hmem).symm

theorem lastSubmitted_of_ne {log : List Note} {note : Note} (h : ∀ other, note ≠ .done (.submit other))
    {bytes : List UInt8} {since : List Note} :
    LastSubmitted (log ++ [note]) bytes since ↔
      ∃ since', since = since' ++ [note] ∧ LastSubmitted log bytes since' := by
  rw [lastSubmitted_concat]
  constructor
  · rintro (⟨hnote, -⟩ | ⟨-, hsince⟩)
    · exact absurd hnote (h bytes)
    · exact hsince
  · exact fun hsince => .inr ⟨h, hsince⟩

/-- whether nothing was run on the buffer -/
def Untouched (since : List Note) : Prop := ∀ shader workgroups, Note.done (.dispatch shader workgroups) ∉ since

/-- what holds of a device and of the notes of all requests that were made of it -/
structure Kept (o : Observed HostDevice) : Prop where
  programs : List.Forall₂ (fun source p => Program.parse source = .ok p) (compiled o.log) o.device.programs.toList
  submitted : ∀ m, o.device.memory = some m → ∃ bytes since, LastSubmitted o.log bytes since
  buffer : ∀ bytes since, LastSubmitted o.log bytes since → ∃ m, o.device.memory = some m ∧
    Size.wordBytes * m.size = bytes.length ∧ (Untouched since → m.bytes = bytes)

theorem kept_empty : Kept ⟨.empty, []⟩ where
  programs := .nil
  submitted _ hm := nomatch hm
  buffer _ _ h := by
    obtain ⟨before, heq⟩ := h.submitted
    exact absurd heq.symm (List.append_ne_nil_of_right_ne_nil _ (List.cons_ne_nil _ _))

/-- a request that submits nothing, and leaves the buffer as it is or runs on it -/
theorem Kept.note {o : Observed HostDevice} (h : Kept o) {d : HostDevice} {note : Note}
    (hsubmit : ∀ other, note ≠ .done (.submit other))
    (hprograms : List.Forall₂ (fun source p => Program.parse source = .ok p) (compiled (o.log ++ [note]))
      d.programs.toList)
    (hmemory : d.memory = o.device.memory ∨ ∃ m m' shader workgroups, o.device.memory = some m ∧ d.memory = some m' ∧
      m'.size = m.size ∧ note = .done (.dispatch shader workgroups)) : Kept ⟨d, o.log ++ [note]⟩ where
  programs := hprograms
  submitted m hm := by
    have hheld : ∃ m, o.device.memory = some m := by
      rcases hmemory with heq | ⟨m₀, -, -, -, hm₀, -⟩
      · exact ⟨m, heq ▸ hm⟩
      · exact ⟨m₀, hm₀⟩
    obtain ⟨m₀, hm₀⟩ := hheld
    obtain ⟨bytes, since, hlast⟩ := h.submitted m₀ hm₀
    exact ⟨bytes, since ++ [note], (lastSubmitted_of_ne hsubmit).2 ⟨since, rfl, hlast⟩⟩
  buffer bytes since hsince := by
    obtain ⟨since', rfl, hlast⟩ := (lastSubmitted_of_ne hsubmit).1 hsince
    obtain ⟨m, hm, hsize, hbytes⟩ := h.buffer bytes since' hlast
    rcases hmemory with heq | ⟨m₀, m', shader, workgroups, hm₀, hm', hsame, rfl⟩
    · refine ⟨m, heq.trans hm, hsize, ?_⟩
      intro huntouched
      exact hbytes fun shader workgroups hmem => huntouched shader workgroups (List.mem_append_left _ hmem)
    · cases hm₀.symm.trans hm
      refine ⟨m', hm', hsame ▸ hsize, ?_⟩
      intro huntouched
      exact absurd List.mem_concat_self (huntouched shader workgroups)

theorem Kept.ask {o : Observed HostDevice} (h : Kept o) (r : Request) : Kept (o.ask r) := by
  -- a note of anything but a compilation adds no source
  have hquiet {note : Note} (hnone : compiled [note] = []) : compiled (o.log ++ [note]) = compiled o.log := by
    rw [compiled, List.filterMap_append]
    exact (congrArg (compiled o.log ++ ·) hnone).trans (List.append_nil _)
  rcases ask_cases o r with ⟨d, hd, heq⟩ | ⟨f, heq⟩
  · rw [heq]
    cases hd with
    | @submit bytes hwhole =>
      refine ⟨?_, fun m _ => ⟨bytes, [], lastSubmitted_concat.2 (.inl ⟨rfl, rfl⟩)⟩, ?_⟩
      · rw [hquiet rfl]
        exact h.programs
      · intro other since hlast
        rcases lastSubmitted_concat.1 hlast with ⟨hnote, rfl⟩ | ⟨hnote, -⟩
        · cases hnote
          refine ⟨.ofBytes bytes, rfl, ?_, fun _ => DeviceMemory.bytes_ofBytes hwhole⟩
          rw [DeviceMemory.size_ofBytes]
          exact Nat.mul_div_cancel' (Nat.dvd_of_mod_eq_zero hwhole)
        · exact absurd rfl (hnote bytes)
    | @compile source p hp =>
      refine h.note (fun _ hnote => nomatch hnote) ?_ (.inl rfl)
      rw [Array.toList_push, compiled, List.filterMap_append]
      exact List.rel_append h.programs (.cons hp .nil)
    | @dispatch shader workgroups p m _ hm _ =>
      refine h.note (fun _ hnote => nomatch hnote) ?_ (.inr ⟨m, _, shader, workgroups, hm, rfl, ?_, rfl⟩)
      · rw [hquiet rfl]
        exact h.programs
      · exact DeviceMemory.size_sweep _ _ _
    | retrieve =>
      refine h.note (fun _ hnote => nomatch hnote) ?_ (.inl rfl)
      rw [hquiet rfl]
      exact h.programs
  · rw [heq]
    refine h.note (fun _ hnote => nomatch hnote) ?_ (.inl rfl)
    rw [hquiet (by cases r <;> rfl)]
    exact h.programs

theorem kept_after (requests : List Request) : Kept (after requests) := by
  induction requests using List.reverseRecOn with
  | nil => exact kept_empty
  | append_singleton requests r ih =>
    rw [after_concat]
    exact ih.ask r

theorem positive_of_parse {source : String} {p : Program} (h : Program.parse source = .ok p) : 0 < p.localSize := by
  unfold Program.parse at h
  cases hsize : (Shader.readLocalSize source.toList).filter (0 < ·) with
  | none =>
    simp only [hsize] at h
    cases h
  | some localSize =>
    simp only [hsize] at h
    obtain ⟨-, hpos⟩ := Option.filter_eq_some_iff.1 hsize
    cases hmain : Shader.mainStatements source.toList with
    | none =>
      simp only [hmain] at h
      cases h
    | some statements =>
      simp only [hmain, bind_eq_ok, pure_eq_ok] at h
      obtain ⟨calls, -, rfl⟩ := h
      exact of_decide_eq_true hpos

/-- no request takes a program away -/
theorem extends_ask (o : Observed HostDevice) (r : Request) : (o.ask r).device.Extends o.device := by
  rcases ask_cases o r with ⟨d, hd, heq⟩ | ⟨f, heq⟩
  · rw [heq]
    cases hd with
    | submit => exact extends_of_eq rfl
    | @compile source p hp => exact o.device.extends_push p _
    | dispatch => exact extends_of_eq rfl
    | retrieve => exact extends_of_eq rfl
  · rw [heq]
    exact extends_of_eq rfl

theorem extends_after (requests later : List Request) :
    (after (requests ++ later)).device.Extends (after requests).device := by
  induction later using List.reverseRecOn with
  | nil =>
    rw [List.append_nil]
    exact extends_of_eq rfl
  | append_singleton later r ih =>
    rw [← List.append_assoc, after_concat]
    exact ih.trans (extends_ask _ r)

theorem submit_ok_iff {bytes : List UInt8} {d : HostDevice} :
    (∃ d', Device.submit bytes d = .ok () d') ↔ bytes.length % Size.wordBytes = 0 := by
  rw [submit_eq]
  split_ifs with hwhole
  · exact ⟨fun _ => hwhole, fun _ => ⟨_, rfl⟩⟩
  · refine ⟨?_, fun hwhole' => absurd hwhole' hwhole⟩
    rintro ⟨d', hd⟩
    cases hd

/-- the notes tell a request that failed from one that was carried out -/
theorem device_ask_of_failed {o : Observed HostDevice} {r : Request} {f : Failure}
    (hlog : (o.ask r).log = o.log ++ [.failed r f]) : (o.ask r).device = o.device := by
  rcases ask_cases o r with ⟨d, -, heq⟩ | ⟨f, heq⟩
  · rw [heq] at hlog
    cases List.append_cancel_left hlog
  · rw [heq]

/-- a request after which the buffer has another length was a submission that was carried out -/
theorem submitted_of_size_ne {o : Observed HostDevice} {r : Request}
    (hne : (o.ask r).device.memory.map Array.size ≠ o.device.memory.map Array.size) :
    ∃ bytes, r = .submit bytes ∧ (o.ask r).log = o.log ++ [.done r] := by
  rcases ask_cases o r with ⟨d, hd, heq⟩ | ⟨f, heq⟩
  · rw [heq] at hne ⊢
    cases hd with
    | @submit bytes => exact ⟨bytes, rfl, rfl⟩
    | compile => exact absurd rfl hne
    | @dispatch shader workgroups p m hp hm =>
      refine absurd ?_ hne
      rw [hm, Option.map_some, Option.map_some, DeviceMemory.size_sweep]
    | retrieve => exact absurd rfl hne
  · rw [heq] at hne
    exact absurd rfl hne

theorem Kept.retrieve_ok_iff {o : Observed HostDevice} (h : Kept o) (n : Nat) :
    (∃ out d, Device.retrieve n o.device = .ok out d) ↔
      ∃ bytes since, LastSubmitted o.log bytes since ∧ n = bytes.length := by
  constructor
  · rintro ⟨out, d, hok⟩
    rw [retrieve_eq] at hok
    cases hm : o.device.memory with
    | none =>
      simp only [hm] at hok
      cases hok
    | some m =>
      simp only [hm] at hok
      split_ifs at hok with hn
      obtain ⟨bytes, since, hlast⟩ := h.submitted m hm
      obtain ⟨m', hm', hsize, -⟩ := h.buffer bytes since hlast
      cases hm.symm.trans hm'
      exact ⟨bytes, since, hlast, hn.symm.trans hsize⟩
  · rintro ⟨bytes, since, hlast, rfl⟩
    obtain ⟨m, hm, hsize, -⟩ := h.buffer bytes since hlast
    exact ⟨m.bytes, _, by rw [retrieve_eq, hm]; exact if_pos hsize⟩

theorem Kept.retrieve_untouched {o : Observed HostDevice} (h : Kept o) {bytes : List UInt8} {since : List Note}
    (hlast : LastSubmitted o.log bytes since) (huntouched : Untouched since) :
    Device.retrieve bytes.length o.device = .ok bytes o.device := by
  obtain ⟨m, hm, hsize, hbytes⟩ := h.buffer bytes since hlast
  rw [retrieve_eq, hm, ← hbytes huntouched]
  exact if_pos (hsize.trans (congrArg List.length (hbytes huntouched).symm))

/-- what was compiled first to last is there first to last, and stays there -/
theorem programs_after (requests : List Request) {i : Nat} {source : String}
    (hi : (compiled (after requests).log)[i]? = some source) :
    ∃ p, Program.parse source = .ok p ∧ 0 < p.localSize ∧
      ∀ later, (after (requests ++ later)).device.programs[i]? = some p := by
  have h := (kept_after requests).programs
  obtain ⟨hlt, rfl⟩ := List.getElem?_eq_some_iff.1 hi
  have hlt' : i < (after requests).device.programs.toList.length := h.length_eq ▸ hlt
  have hp := h.get hlt hlt'
  refine ⟨_, hp, positive_of_parse hp, ?_⟩
  intro later
  apply extends_after requests later
  simp

/-- what the next answers are, and what the next requests change, behind a list of requests -/
structure Orderly (requests : List Request) : Prop where
  /-- every source is compiled that has a program, and its handle is the number of those that were compiled before -/
  compile : ∀ source, Device.compile source (after requests).device = match Program.parse source with
    | .ok p => .ok ⟨(compiled (after requests).log).length⟩
        ⟨(after requests).device.memory, (after requests).device.programs.push p⟩
    | .error f => .error (.refused f) (after requests).device
  /-- there are as many programs as handles -/
  handles : (after requests).device.programs.size = (compiled (after requests).log).length
  /-- behind a handle there is the program of the source that was compiled under it, whatever is requested later, and
  its local size is positive -/
  programs : ∀ (i : Nat) (source : String), (compiled (after requests).log)[i]? = some source →
    ∃ p, Program.parse source = .ok p ∧ 0 < p.localSize ∧
      ∀ later, (after (requests ++ later)).device.programs[i]? = some p
  /-- a request that fails leaves the device as it is -/
  failed : ∀ r f, (after (requests ++ [r])).log = (after requests).log ++ [.failed r f] →
    (after (requests ++ [r])).device = (after requests).device
  /-- also where a dispatch works on the buffer itself -/
  inPlace : ∀ shader workgroups, Device.dispatch shader workgroups (after requests).device =
    dispatchInPlace shader workgroups (after requests).device
  /-- whole words are submitted, and nothing else -/
  submit : ∀ bytes, (∃ d, Device.submit bytes (after requests).device = .ok () d) ↔ bytes.length % Size.wordBytes = 0
  /-- the length of the buffer only changes where something is submitted -/
  size : ∀ r, (after (requests ++ [r])).device.memory.map Array.size ≠ (after requests).device.memory.map Array.size →
    ∃ bytes, r = .submit bytes ∧ (after (requests ++ [r])).log = (after requests).log ++ [.done r]
  /-- as many bytes are given back as were last submitted -/
  retrieve : ∀ n, (∃ out d, Device.retrieve n (after requests).device = .ok out d) ↔
    ∃ bytes since, LastSubmitted (after requests).log bytes since ∧ n = bytes.length
  /-- the very bytes, if nothing has run on them -/
  exact : ∀ bytes since, LastSubmitted (after requests).log bytes since → Untouched since →
    Device.retrieve bytes.length (after requests).device = .ok bytes (after requests).device

/-- **The device keeps order.** Whatever is requested of a device, in whatever order and with whatever arguments, it is
orderly then. -/
theorem orderly (requests : List Request) : Orderly requests := by
  have h := kept_after requests
  have hcount : (after requests).device.programs.size = (compiled (after requests).log).length := by
    rw [h.programs.length_eq, Array.length_toList]
  exact {
    compile := fun source => by rw [compile_eq, hcount]
    handles := hcount
    programs := fun i source hi => programs_after requests hi
    failed := fun r f hlog => by
      rw [after_concat] at hlog ⊢
      exact device_ask_of_failed hlog
    inPlace := fun shader workgroups => dispatch_eq_inPlace shader workgroups _
    submit := fun bytes => submit_ok_iff
    size := fun r hne => by
      rw [after_concat] at hne ⊢
      exact submitted_of_size_ne hne
    retrieve := fun n => h.retrieve_ok_iff n
    exact := fun bytes since hlast huntouched => h.retrieve_untouched hlast huntouched }

/-- a shader of two invocations a workgroup -/
def adder : String := "local_size_x=2 void main()\x7baddVectors(0u,0u,0u,2u)\x7d"

/-- a signalling invalid number and a negative zero -/
def oddBytes : List UInt8 := [1, 0, 0xa0, 0x7f, 0, 0, 0, 0x80]

/-- a shader between two texts that are none, bytes that are no words, and a handle that was not given -/
def mishaps : List Request :=
  [.compile "main", .compile adder, .compile "", .retrieve 0, .submit [1, 2, 3], .dispatch ⟨0⟩ 1, .submit oddBytes,
    .dispatch ⟨1⟩ 1, .retrieve 4]

/-- the shader has handle 0, and the bytes come back as they are -/
theorem orderly_sample :
    compiled (after mishaps).log = [adder] ∧
      (∃ p, Program.parse adder = .ok p ∧ 0 < p.localSize ∧
        ∀ later, (after (mishaps ++ later)).device.programs[0]? = some p) ∧
      Device.retrieve oddBytes.length (after mishaps).device = .ok oddBytes (after mishaps).device := by
  have hcompiled : compiled (after mishaps).log = [adder] := by decide +kernel
  have hfirst : (compiled (after mishaps).log)[0]? = some adder := by rw [hcompiled, List.getElem?_cons_zero]
  have hlog : (after mishaps).log = (after mishaps).log.take 6 ++ .done (.submit oddBytes) ::
      [.failed (.dispatch ⟨1⟩ 1) (.refused (.device (.unknownShader 1))),
        .failed (.retrieve 4) (.refused (.device (.retrieveSize 4 8)))] := by decide +kernel
  have hlast := LastSubmitted.mk ⟨_, hlog⟩ fun other hmem => by simp [Note.done, Note.failed] at hmem
  have huntouched : Untouched [.failed (.dispatch ⟨1⟩ 1) (.refused (.device (.unknownShader 1))),
      .failed (.retrieve 4) (.refused (.device (.retrieveSize 4 8)))] :=
    fun shader workgroups hmem => by simp [Note.done, Note.failed] at hmem
  have h := orderly mishaps
  exact ⟨hcompiled, h.programs 0 _ hfirst, h.exact oddBytes _ hlast huntouched⟩

end HostDevice

end ArrayEngine
