/-
What the check of the extents guards against, and what it does not.

Before a dispatch runs anything, the extent of every call is compared with the length of the buffer. A call that passes
lies inside the buffer (`Call.Inside`). The extent of a call that `Overflows` is no size, and to ask for it is a fault.
- `exists_invokeAll` is one invocation where all calls lie inside: it succeeds and writes nothing but the elements with
  its own index in the ranges of the calls. `run_inside` says what any number of them does;
- `extent_eq_error` and `checkExtents_eq_error`: how the check itself can end, in the call that it stops at;
- `dispatch_ends`: so a dispatch is carried out, or refused by the device, or a fault of the arithmetic. It is a fault
  exactly if the extent of a call that is reached is no size, or the number of invocations is none.
-/
import ArrayEngine.Proofs.DeviceHistory
import ArrayEngine.Proofs.Frame

namespace ArrayEngine

open Shader (Call)

/-! ## Extents -/

namespace Shader.Call

/-- a call one of whose ranges ends past the largest size -/
def Overflows : Call → Prop
  | scale dest src len _ => Size.bound ≤ dest + len ∨ Size.bound ≤ src + len
  | product dest matrix vector rows cols =>
    Size.bound ≤ dest + rows ∨ Size.bound ≤ matrix + rows * cols ∨ Size.bound ≤ vector + cols
  | add dest lhs rhs len => Size.bound ≤ dest + len ∨ Size.bound ≤ lhs + len ∨ Size.bound ≤ rhs + len

/-- a call whose extent is a size, and not past the end of a memory of `n` elements -/
def Inside (n : Nat) (c : Call) : Prop := ∃ k, c.extent = .ok k ∧ k ≤ n

variable {c : Call} {n : Nat}

theorem extent_eq_error {f : Fault} : c.extent = .error f ↔ c.Overflows ∧ f = .overflow := by
  cases c <;>
  · simp only [extent, Overflows, Size.add, Size.mul, bind_eq_error, Size.checked_eq_error, Size.checked_eq_ok,
      pure_ne_error]
    -- the sums are checked one after the other, and each error is the same
    grind

theorem Inside.fits (h : c.Inside n) : c.Fits n := by
  obtain ⟨k, hk, hle⟩ := h
  exact fits_of_extent hk hle

/-- the range that a call inside a memory writes -/
theorem Inside.written (h : c.Inside n) : c.written = .ok ⟨c.dest, c.dest + c.size⟩ := by
  obtain ⟨k, hk, -⟩ := h
  have hadd : Size.add c.dest c.size = .ok (c.dest + c.size) := by
    refine Size.add_eq_ok.2 ⟨Nat.lt_of_not_le fun hge => ?_, rfl⟩
    have hover : c.Overflows := by cases c <;> exact .inl hge
    cases hk.symm.trans (extent_eq_error.2 ⟨hover, rfl⟩)
  cases c <;> exact bind_eq_ok.2 ⟨_, hadd, rfl⟩

end Shader.Call

/-! ## Invocations inside the memory -/

namespace DeviceMemory

variable {calls : List Call} {m : DeviceMemory}

/-- any number of invocations succeeds and writes inside the ranges of the calls -/
theorem exists_run (h : ∀ c ∈ calls, c.Inside m.size) (n : Nat) :
    ∃ m', run calls n m = .ok m' ∧ m'.size = m.size ∧
      ∀ j, (∀ c ∈ calls, ∀ r, c.written = .ok r → ¬(r.start ≤ j ∧ j < r.stop)) → m'[j]? = m[j]? := by
  refine ⟨sweep calls n m, run_eq (fun c hc => (h c hc).fits) n, size_sweep calls n m, ?_⟩
  intro j hj
  exact getElem?_sweep_of_apart (fun c hc => hj c hc _ (h c hc).written) n m

/-- an invocation behind those with smaller indices writes the elements with its own index -/
theorem exists_invokeAll (h : ∀ c ∈ calls, c.Inside m.size) (i : Nat) :
    ∃ before after, run calls i m = .ok before ∧ invokeAll calls i before = .ok after ∧
      run calls (i + 1) m = .ok after ∧
      ∀ j, after[j]? ≠ before[j]? → ∃ c ∈ calls, ∃ r, c.written = .ok r ∧ j = r.start + i ∧ j < r.stop := by
  have hfits : ∀ c ∈ calls, c.Fits m.size := fun c hc => (h c hc).fits
  have hfits' : ∀ c ∈ calls, c.Fits (sweep calls i m).size := by rwa [size_sweep]
  refine ⟨sweep calls i m, sweep calls (i + 1) m, run_eq hfits i, ?_, run_eq hfits (i + 1), ?_⟩
  · rw [invokeAll_eq hfits', sweep_succ]
  · intro j hj
    by_contra hnone
    push Not at hnone
    refine hj ?_
    rw [sweep_succ]
    apply getElem?_effects_of_ne
    rintro c hc ⟨hlt, rfl⟩
    exact absurd (Nat.add_lt_add_left hlt c.dest) (hnone c hc _ (h c hc).written rfl).not_gt

/-- invocations behind the largest size of a call change nothing further -/
theorem run_eq_run (h : ∀ c ∈ calls, c.Inside m.size) {n n' : Nat} (hn : ∀ c ∈ calls, c.size ≤ n)
    (hn' : ∀ c ∈ calls, c.size ≤ n') : run calls n m = run calls n' m := by
  have hfits : ∀ c ∈ calls, c.Fits m.size := fun c hc => (h c hc).fits
  rw [run_eq hfits, run_eq hfits]
  rcases Nat.le_total n n' with hle | hle
  · obtain ⟨k, rfl⟩ := Nat.exists_eq_add_of_le hle
    rw [sweep_surplus hn]
  · obtain ⟨k, rfl⟩ := Nat.exists_eq_add_of_le hle
    rw [sweep_surplus hn']

/-- **Inside the memory.** Take calls whose extents are sizes and reach no further than the memory.
- Any number of invocations succeeds, keeps the length of the memory, and every element outside the ranges that the
  calls write.
- Invocation `i` follows those below `i`, and changes only elements with the index `i` in those ranges.
- More invocations than the largest size of a call change nothing further. -/
theorem run_inside (h : ∀ c ∈ calls, ∃ k, c.extent = .ok k ∧ k ≤ m.size) :
    (∀ n, ∃ m', run calls n m = .ok m' ∧ m'.size = m.size ∧
      ∀ j, (∀ c ∈ calls, ∀ r, c.written = .ok r → ¬(r.start ≤ j ∧ j < r.stop)) → m'[j]? = m[j]?) ∧
    (∀ i, ∃ before after, run calls i m = .ok before ∧ invokeAll calls i before = .ok after ∧
      run calls (i + 1) m = .ok after ∧
      ∀ j, after[j]? ≠ before[j]? → ∃ c ∈ calls, ∃ r, c.written = .ok r ∧ j = r.start + i ∧ j < r.stop) ∧
    ∀ n n', (∀ c ∈ calls, c.size ≤ n) → (∀ c ∈ calls, c.size ≤ n') → run calls n m = run calls n' m :=
  ⟨exists_run h, exists_invokeAll h, fun _ _ hn hn' => run_eq_run h hn hn'⟩

/-- a product whose result overlaps its matrix, and a sum that overlaps itself and that result -/
def entangled : List Call := [.product 1 2 0 2 2, .add 2 1 3 3]

/-- 1, 2, 3, 4, 5 and 6 -/
def sixNumbers : DeviceMemory :=
  #[⟨0x3f800000⟩, ⟨0x40000000⟩, ⟨0x40400000⟩, ⟨0x40800000⟩, ⟨0x40a00000⟩, ⟨0x40c00000⟩]

/-- eight invocations of those calls do what three do, and leave the first and the last number -/
theorem run_inside_entangled :
    (∃ m, run entangled 8 sixNumbers = .ok m ∧ m[0]? = some ⟨0x3f800000⟩ ∧ m[5]? = some ⟨0x40c00000⟩) ∧
      run entangled 8 sixNumbers = run entangled 3 sixNumbers := by
  have hinside : ∀ c ∈ entangled, ∃ k, c.extent = .ok k ∧ k ≤ sixNumbers.size := by
    simp only [entangled, List.forall_mem_cons]
    exact ⟨⟨_, rfl, by decide⟩, ⟨_, rfl, by decide⟩, nofun⟩
  have hsizes : ∀ c ∈ entangled, c.size ≤ 3 := by decide
  obtain ⟨hrun, -, hsurplus⟩ := run_inside hinside
  obtain ⟨m, hm, -, hframe⟩ := hrun 8
  refine ⟨⟨m, hm, hframe 0 ?_, hframe 5 ?_⟩, hsurplus 8 3 (fun c hc => (hsizes c hc).trans (by decide)) hsizes⟩ <;>
  · simp only [entangled, List.forall_mem_cons]
    refine ⟨?_, ?_, nofun⟩ <;>
    · intro r hr
      cases hr
      decide

end DeviceMemory

/-! ## Dispatches -/

/-- the check of one call -/
def checkExtent (n : Nat) (c : Call) : Except Failure Unit := do
  let extent ← c.extent
  if n < extent then throw (.refused (.device (.outsideBuffer c extent n)))

section

variable {n : Nat} {calls : List Call} {c : Call} {u : Unit} {f : Failure}

theorem checkExtent_eq_ok : checkExtent n c = .ok u ↔ c.Inside n := by
  simp only [checkExtent, bind_eq_ok, lift_fault_eq_ok, Call.Inside]
  refine exists_congr fun k => and_congr_right fun _ => ?_
  split_ifs with hlt
  · exact iff_of_false not_false (Nat.not_le.2 hlt)
  · exact iff_of_true rfl (Nat.not_lt.1 hlt)

theorem checkExtent_eq_error : checkExtent n c = .error f ↔
    c.Overflows ∧ f = .fault .overflow ∨
      ∃ k, c.extent = .ok k ∧ n < k ∧ f = .refused (.device (.outsideBuffer c k n)) := by
  simp only [checkExtent, bind_eq_error, lift_fault_eq_error, lift_fault_eq_ok, Call.extent_eq_error]
  refine or_congr ?_ (exists_congr fun k => and_congr_right fun _ => ?_)
  · constructor
    · rintro ⟨e, ⟨hover, rfl⟩, hf⟩
      exact ⟨hover, hf⟩
    · rintro ⟨hover, hf⟩
      exact ⟨_, ⟨hover, rfl⟩, hf⟩
  · split_ifs with hlt
    · rw [and_iff_right hlt]
      exact ⟨fun h => (Except.error.inj h).symm, fun h => congrArg _ h.symm⟩
    · exact iff_of_false pure_ne_error fun h => hlt h.1

theorem checkExtents_eq_ok : checkExtents n calls = .ok u ↔ ∀ c ∈ calls, c.Inside n := by
  have hforM : checkExtents n calls = calls.forM (checkExtent n) := rfl
  simp only [hforM, forM_eq_ok, checkExtent_eq_ok]

/-- the calls are checked one by one, up to the first that is not inside -/
theorem checkExtents_eq_error : checkExtents n calls = .error f ↔
    ∃ before c after, calls = before ++ c :: after ∧ (∀ b ∈ before, b.Inside n) ∧
      (c.Overflows ∧ f = .fault .overflow ∨
        ∃ k, c.extent = .ok k ∧ n < k ∧ f = .refused (.device (.outsideBuffer c k n))) := by
  have hforM : checkExtents n calls = calls.forM (checkExtent n) := rfl
  simp only [hforM, forM_eq_error, checkExtent_eq_ok, checkExtent_eq_error]

end

namespace HostDevice

variable {d : HostDevice} {shader : ShaderHandle} {workgroups : Nat}

/-- whether the arithmetic of a dispatch leaves the sizes: the extent of a call does, and the calls before it lie inside
the buffer, or all calls lie inside it, and the number of invocations does -/
def Overflows (d : HostDevice) (shader : ShaderHandle) (workgroups : Nat) : Prop :=
  ∃ p m, d.programs[shader.index]? = some p ∧ d.memory = some m ∧
    ((∃ before c after, p.calls = before ++ c :: after ∧ (∀ b ∈ before, b.Inside m.size) ∧ c.Overflows) ∨
      (∀ c ∈ p.calls, c.Inside m.size) ∧ Size.bound ≤ workgroups * p.localSize)

theorem overflows_iff {p : Program} {m : DeviceMemory} (hp : d.programs[shader.index]? = some p)
    (hm : d.memory = some m) : d.Overflows shader workgroups ↔
      (∃ before c after, p.calls = before ++ c :: after ∧ (∀ b ∈ before, b.Inside m.size) ∧ c.Overflows) ∨
        (∀ c ∈ p.calls, c.Inside m.size) ∧ Size.bound ≤ workgroups * p.localSize := by
  constructor
  · rintro ⟨p', m', hp', hm', h⟩
    cases hp.symm.trans hp'
    cases hm.symm.trans hm'
    exact h
  · exact fun h => ⟨p, m, hp, hm, h⟩

/-- behind a known handle and on a buffer, what fails is the check of the calls or the number of invocations -/
theorem dispatch_eq_error {p : Program} {m : DeviceMemory} {f : Failure} (hp : d.programs[shader.index]? = some p)
    (hm : d.memory = some m) : d.dispatch shader workgroups = .error f ↔
      checkExtents m.size p.calls = .error f ∨
        (∀ c ∈ p.calls, c.Inside m.size) ∧ Size.bound ≤ workgroups * p.localSize ∧ f = .fault .overflow := by
  have hrun (hinside : ∀ c ∈ p.calls, c.Inside m.size) (k : Nat) :
      m.run p.calls k = .ok (m.sweep p.calls k) := DeviceMemory.run_eq (fun c hc => (hinside c hc).fits) k
  simp only [dispatch, hp, hm, bind_eq_error, checkExtents_eq_ok, lift_fault_eq_error, Size.mul, Size.checked_eq_error]
  refine or_congr_right ⟨?_, ?_⟩
  · rintro ⟨-, hinside, ⟨-, ⟨hle, rfl⟩, rfl⟩ | ⟨k, -, ⟨e, hfail, -⟩ | ⟨_, -, hfail⟩⟩⟩
    · exact ⟨hinside, hle, rfl⟩
    · cases (hrun hinside k).symm.trans hfail
    · cases hfail
  · rintro ⟨hinside, hle, rfl⟩
    exact ⟨(), hinside, .inl ⟨_, ⟨hle, rfl⟩, rfl⟩⟩

/-- a refused dispatch is refused by the device -/
theorem exists_of_dispatch_eq_refused {e : EngineError} (h : d.dispatch shader workgroups = .error (.refused e)) :
    ∃ reason, e = .device reason := by
  cases hp : d.programs[shader.index]? with
  | none =>
    simp only [dispatch, hp] at h
    cases h
    exact ⟨_, rfl⟩
  | some p =>
    cases hm : d.memory with
    | none =>
      simp only [dispatch, hp, hm] at h
      cases h
      exact ⟨_, rfl⟩
    | some m =>
      rw [dispatch_eq_error hp hm, checkExtents_eq_error] at h
      obtain ⟨-, c, -, -, -, ⟨-, hf⟩ | ⟨k, -, -, hf⟩⟩ | ⟨-, -, hf⟩ := h
      · cases hf
      · cases hf
        exact ⟨_, rfl⟩
      · cases hf

theorem dispatch_eq_fault {fault : Fault} :
    d.dispatch shader workgroups = .error (.fault fault) ↔ d.Overflows shader workgroups ∧ fault = .overflow := by
  cases hp : d.programs[shader.index]? with
  | none => simp [dispatch, hp, Overflows, throw, throwThe, MonadExceptOf.throw]
  | some p =>
    cases hm : d.memory with
    | none => simp [dispatch, hp, hm, Overflows, throw, throwThe, MonadExceptOf.throw]
    | some m =>
      rw [dispatch_eq_error hp hm, checkExtents_eq_error, overflows_iff hp hm]
      simp only [Failure.fault.injEq, reduceCtorEq, and_false, exists_false, or_false, ← and_assoc, exists_and_right,
        or_and_right]

/-- a dispatch that fails leaves the device as it is -/
theorem device_dispatch_eq_error {f : Failure} :
    Device.dispatch shader workgroups d = .error f d ↔ d.dispatch shader workgroups = .error f := by
  simp only [Device.dispatch, Run.attempt]
  cases d.dispatch shader workgroups <;> simp

/-- **How a dispatch ends.** Whatever the device holds, whatever the handle and the number of workgroups are, a dispatch
is carried out, or it leaves the device as it is and is either refused by the device or a fault of the arithmetic. It is
a fault exactly if it overflows; no access to the memory is. -/
theorem dispatch_ends (d : HostDevice) (shader : ShaderHandle) (workgroups : Nat) :
    ((∃ d', Device.dispatch shader workgroups d = .ok () d') ∨
      (∃ reason, Device.dispatch shader workgroups d = .error (.refused (.device reason)) d) ∨
      Device.dispatch shader workgroups d = .error (.fault .overflow) d) ∧
    (Device.dispatch shader workgroups d = .error (.fault .overflow) d ↔ d.Overflows shader workgroups) := by
  refine ⟨?_, ?_⟩
  · cases h : d.dispatch shader workgroups with
    | ok d' => exact .inl ⟨d', by simp only [Device.dispatch, Run.attempt, h]⟩
    | error f =>
      cases f with
      | refused e =>
        obtain ⟨reason, rfl⟩ := exists_of_dispatch_eq_refused h
        exact .inr (.inl ⟨reason, device_dispatch_eq_error.2 h⟩)
      | fault fault =>
        obtain ⟨-, rfl⟩ := dispatch_eq_fault.1 h
        exact .inr (.inr (device_dispatch_eq_error.2 h))
  · rw [device_dispatch_eq_error, dispatch_eq_fault, and_iff_left rfl]

/-- a sum into the element with the largest number -/
def farCall : Call := .add (Size.bound - 1) 0 0 1

/-- two shaders, of which the first holds that call, and the second declares two invocations and has no calls -/
theorem dispatch_ends_overflow : ∃ d₁ d₂ d₃ : HostDevice,
    Device.submit [0, 0, 0x80, 0x3f] HostDevice.empty = .ok () d₁ ∧
      Device.compile (Shader.render 1 [farCall]) d₁ = .ok ⟨0⟩ d₂ ∧
      Device.dispatch ⟨0⟩ 1 d₂ = .error (.fault .overflow) d₂ ∧
      Device.compile (Shader.render 2 []) d₂ = .ok ⟨1⟩ d₃ ∧
      Device.dispatch ⟨1⟩ 0x8000000000000000 d₃ = .error (.fault .overflow) d₃ := by
  have hfar : ∀ c ∈ [farCall], c.Sized := by decide +kernel
  have hfirst : Program.parse (Shader.render 1 [farCall]) = .ok ⟨1, [farCall]⟩ :=
    Program.parse_render (by decide) (by decide) hfar
  have hsecond : Program.parse (Shader.render 2 []) = .ok ⟨2, []⟩ :=
    Program.parse_render (by decide) (by decide) nofun
  refine ⟨⟨some #[⟨0x3f800000⟩], #[]⟩, ⟨some #[⟨0x3f800000⟩], #[⟨1, [farCall]⟩]⟩,
    ⟨some #[⟨0x3f800000⟩], #[⟨1, [farCall]⟩, ⟨2, []⟩]⟩, rfl, ?_, rfl, ?_, rfl⟩
  · rw [compile_eq, hfirst]
    rfl
  · rw [compile_eq, hsecond]
    rfl

end HostDevice

end ArrayEngine
