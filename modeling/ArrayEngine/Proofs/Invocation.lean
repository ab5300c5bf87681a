/-
What one invocation of a call does to the memory of a device, and when two of them can change places.

An invocation reads some elements and writes one. `Call.valueAt` is what it writes and `Call.effect` the memory
afterwards, both total: where every access of a call stays inside the memory (`Call.Fits`), `invoke_eq` says that the
device does exactly this, and `run_eq` that a dispatch folds these effects over the invocations and, in each, over the
calls.
- `effect_comm`: two invocations commute if neither writes what the other reads or writes;
- `sweep_eq_sweeps`: so a group of calls whose invocations at different indices commute may run call by call instead of
  invocation by invocation;
- `sweep_surplus`: invocations past the size of a call do nothing.
-/
import ArrayEngine.Device.Host
import ArrayEngine.Proofs.Memory

namespace ArrayEngine

/-! ## Elements -/

namespace DeviceMemory

/-- an element, as far as the memory reaches -/
def elementAt (m : DeviceMemory) (i : Nat) : Single := m[i]?.getD .zero

/-- the sum of `n` products of the elements from `i` and from `j` on, added to `acc` from left to right -/
def dotAt (m : DeviceMemory) (i j : Nat) : Nat → Single → Single
  | 0, acc => acc
  | n + 1, acc => dotAt m (i + 1) (j + 1) n (acc + m.elementAt i * m.elementAt j)

variable {m m' : DeviceMemory}

theorem load_eq {i : Nat} (h : i < m.size) : m.load i = .ok (m.elementAt i) := by
  simp [load, elementAt, h]

theorem store_eq {i : Nat} (h : i < m.size) (x : Single) : m.store i x = .ok (m.setIfInBounds i x) := by
  simp [store, Array.setIfInBounds, h]

theorem elementAt_set_of_ne {i j : Nat} (h : i ≠ j) (x : Single) :
    elementAt (m.setIfInBounds i x) j = m.elementAt j := by
  rw [elementAt, elementAt, Array.getElem?_setIfInBounds_ne h]

theorem dotFrom_eq {i j n : Nat} (hi : i + n ≤ m.size) (hj : j + n ≤ m.size) (acc : Single) :
    m.dotFrom i j n acc = .ok (m.dotAt i j n acc) := by
  induction n generalizing i j acc with
  | zero => rfl
  | succ n ih =>
    rw [dotFrom, load_eq (by omega), ok_bind, load_eq (by omega), ok_bind]
    exact ih (by omega) (by omega) _

theorem dotAt_congr {i j n : Nat} (hi : ∀ k < n, m'.elementAt (i + k) = m.elementAt (i + k))
    (hj : ∀ k < n, m'.elementAt (j + k) = m.elementAt (j + k)) (acc : Single) :
    m'.dotAt i j n acc = m.dotAt i j n acc := by
  induction n generalizing i j acc with
  | zero => rfl
  | succ n ih =>
    have hi0 := hi 0 (Nat.succ_pos n)
    have hj0 := hj 0 (Nat.succ_pos n)
    rw [Nat.add_zero] at hi0 hj0
    rw [dotAt, dotAt, hi0, hj0]
    apply ih
    · intro k hk
      rw [Nat.add_right_comm, Nat.add_assoc]
      exact hi (k + 1) (by omega)
    · intro k hk
      rw [Nat.add_right_comm, Nat.add_assoc]
      exact hj (k + 1) (by omega)

end DeviceMemory

/-! ## One invocation -/

namespace Shader.Call

/-- the first element a call writes -/
def dest : Call → Nat
  | scale dest .. | product dest .. | add dest .. => dest

/-- the number of elements a call writes -/
def size : Call → Nat
  | scale _ _ len _ | add _ _ _ len => len
  | product _ _ _ rows _ => rows

/-- whether an invocation of a call reads an element -/
def Reads (c : Call) (gid i : Nat) : Prop :=
  match c with
  | scale _ src _ _ => i = src + gid
  | product _ matrix vector _ cols => ∃ k < cols, i = matrix + gid * cols + k ∨ i = vector + k
  | add _ lhs rhs _ => i = lhs + gid ∨ i = rhs + gid

/-- what an invocation of a call writes -/
def valueAt (c : Call) (gid : Nat) (m : DeviceMemory) : Single :=
  match c with
  | scale _ src _ factor => m.elementAt (src + gid) * factor
  | product _ matrix vector _ cols => m.dotAt (matrix + gid * cols) vector cols .negZero
  | add _ lhs rhs _ => m.elementAt (lhs + gid) + m.elementAt (rhs + gid)

/-- the memory after an invocation of a call -/
def effect (c : Call) (gid : Nat) (m : DeviceMemory) : DeviceMemory :=
  if gid < c.size then m.setIfInBounds (c.dest + gid) (c.valueAt gid m) else m

/-- whether everything a call touches lies in a memory of `n` elements -/
def Fits (n : Nat) : Call → Prop
  | scale dest src len _ => dest + len ≤ n ∧ src + len ≤ n
  | product dest matrix vector rows cols => dest + rows ≤ n ∧ matrix + rows * cols ≤ n ∧ vector + cols ≤ n
  | add dest lhs rhs len => dest + len ≤ n ∧ lhs + len ≤ n ∧ rhs + len ≤ n

variable {c c' : Call} {gid gid' : Nat} {m m' : DeviceMemory}

@[simp]
theorem size_effect (c : Call) (gid : Nat) (m : DeviceMemory) : (c.effect gid m).size = m.size := by
  unfold effect
  split_ifs
  · exact Array.size_setIfInBounds
  · rfl

/-- what is written depends on what is read only -/
theorem valueAt_congr (h : ∀ i, c.Reads gid i → m'.elementAt i = m.elementAt i) :
    c.valueAt gid m' = c.valueAt gid m := by
  cases c with
  | scale dest src len factor => rw [valueAt, valueAt, h _ rfl]
  | product dest matrix vector rows cols =>
    exact DeviceMemory.dotAt_congr (fun k hk => h _ ⟨k, hk, .inl rfl⟩) (fun k hk => h _ ⟨k, hk, .inr rfl⟩) _
  | add dest lhs rhs len => rw [valueAt, valueAt, h _ (.inl rfl), h _ (.inr rfl)]

/-- two invocations commute if neither writes what the other reads or writes -/
theorem effect_comm (hw : c.dest + gid ≠ c'.dest + gid') (hr : ¬c.Reads gid (c'.dest + gid'))
    (hr' : ¬c'.Reads gid' (c.dest + gid)) (m : DeviceMemory) :
    c.effect gid (c'.effect gid' m) = c'.effect gid' (c.effect gid m) := by
  unfold effect
  split_ifs with h h'
  · have hv (x : Single) : c.valueAt gid (m.setIfInBounds (c'.dest + gid') x) = c.valueAt gid m :=
      valueAt_congr fun i hi => DeviceMemory.elementAt_set_of_ne (fun he => hr (by rwa [he])) x
    have hv' (x : Single) : c'.valueAt gid' (m.setIfInBounds (c.dest + gid) x) = c'.valueAt gid' m :=
      valueAt_congr fun i hi => DeviceMemory.elementAt_set_of_ne (fun he => hr' (by rwa [he])) x
    rw [hv, hv']
    exact (Array.setIfInBounds_comm _ _ hw).symm
  · rfl
  · rfl
  · rfl

theorem effect_of_lt (h : gid < c.size) (m : DeviceMemory) :
    c.effect gid m = m.setIfInBounds (c.dest + gid) (c.valueAt gid m) := if_pos h

theorem effect_of_le (h : c.size ≤ gid) (m : DeviceMemory) : c.effect gid m = m := if_neg (Nat.not_lt.2 h)

/-- inside the memory, an invocation succeeds with its effect -/
theorem invoke_eq (h : c.Fits m.size) (gid : Nat) : m.invoke gid c = .ok (c.effect gid m) := by
  by_cases hg : gid < c.size
  · rw [effect_of_lt hg]
    cases c with
    | scale dest src len factor =>
      obtain ⟨hd, hs⟩ := h
      have hlt : gid < len := hg
      rw [DeviceMemory.invoke, if_pos hlt, DeviceMemory.load_eq (by omega), ok_bind, DeviceMemory.store_eq (by omega)]
      rfl
    | product dest matrix vector rows cols =>
      obtain ⟨hd, hm, hv⟩ := h
      have hlt : gid < rows := hg
      have hrow : gid * cols + cols ≤ rows * cols := by
        rw [← Nat.succ_mul]
        exact Nat.mul_le_mul_right cols hlt
      rw [DeviceMemory.invoke, if_pos hlt, DeviceMemory.dotFrom_eq (by omega) hv, ok_bind,
        DeviceMemory.store_eq (by omega)]
      rfl
    | add dest lhs rhs len =>
      obtain ⟨hd, hl, hr⟩ := h
      have hlt : gid < len := hg
      rw [DeviceMemory.invoke, if_pos hlt, DeviceMemory.load_eq (by omega), ok_bind, DeviceMemory.load_eq (by omega),
        ok_bind, DeviceMemory.store_eq (by omega)]
      rfl
  · rw [effect_of_le (Nat.not_lt.1 hg)]
    cases c <;> exact if_neg hg

end Shader.Call

/-! ## Dispatches -/

namespace DeviceMemory

open Shader (Call)

/-- the memory after an invocation of each call -/
def effects (calls : List Call) (gid : Nat) (m : DeviceMemory) : DeviceMemory :=
  calls.foldl (fun m c => c.effect gid m) m

/-- the memory after the invocations below `n` of each call, invocation by invocation -/
def sweep (calls : List Call) (n : Nat) (m : DeviceMemory) : DeviceMemory :=
  (List.range n).foldl (fun m gid => effects calls gid m) m

/-- the memory after the invocations below `n` of each call, call by call -/
def sweeps (calls : List Call) (n : Nat) (m : DeviceMemory) : DeviceMemory := calls.foldl (fun m c => sweep [c] n m) m

variable {calls : List Call} {c : Call}

@[simp]
theorem size_effects (calls : List Call) (gid : Nat) (m : DeviceMemory) : (effects calls gid m).size = m.size := by
  induction calls generalizing m with
  | nil => rfl
  | cons c calls ih => exact (ih _).trans (c.size_effect gid m)

theorem sweep_succ (calls : List Call) (n : Nat) (m : DeviceMemory) :
    sweep calls (n + 1) m = effects calls n (sweep calls n m) := by
  simp only [sweep, List.range_succ, List.foldl_append, List.foldl_cons, List.foldl_nil]

@[simp]
theorem size_sweep (calls : List Call) (n : Nat) (m : DeviceMemory) : (sweep calls n m).size = m.size := by
  induction n with
  | zero => rfl
  | succ n ih => rw [sweep_succ, size_effects, ih]

theorem invokeAll_eq {m : DeviceMemory} (h : ∀ c ∈ calls, c.Fits m.size) (gid : Nat) :
    invokeAll calls gid m = .ok (effects calls gid m) := by
  induction calls generalizing m with
  | nil => rfl
  | cons c calls ih =>
    have hc := Call.invoke_eq (h c List.mem_cons_self) gid
    have hrest : ∀ c' ∈ calls, c'.Fits (c.effect gid m).size := by
      intro c' hc'
      rw [Call.size_effect]
      exact h c' (List.mem_cons_of_mem c hc')
    rw [invokeAll, List.foldlM_cons, hc, ok_bind]
    exact ih hrest

theorem runFrom_eq {m : DeviceMemory} (h : ∀ c ∈ calls, c.Fits m.size) (n gid : Nat) :
    runFrom calls n gid m = .ok ((List.range' gid n).foldl (fun m gid => effects calls gid m) m) := by
  induction n generalizing gid m with
  | zero => rfl
  | succ n ih =>
    have hrest : ∀ c ∈ calls, c.Fits (effects calls gid m).size := by
      intro c hc
      rw [size_effects]
      exact h c hc
    rw [runFrom, invokeAll_eq h, ok_bind, ih hrest]
    rfl

/-- inside the memory, a dispatch folds the effects of its invocations -/
theorem run_eq {m : DeviceMemory} (h : ∀ c ∈ calls, c.Fits m.size) (n : Nat) :
    run calls n m = .ok (sweep calls n m) := by
  rw [run, runFrom_eq h, sweep, List.range_eq_range']

/-- invocations past the size of every call do nothing -/
theorem sweep_surplus {n : Nat} (h : ∀ c ∈ calls, c.size ≤ n) (k : Nat) (m : DeviceMemory) :
    sweep calls (n + k) m = sweep calls n m := by
  have hnone {gid : Nat} (hgid : n ≤ gid) (m : DeviceMemory) : effects calls gid m = m := by
    unfold effects
    induction calls with
    | nil => rfl
    | cons c calls ih =>
      rw [List.foldl_cons, c.effect_of_le ((h c List.mem_cons_self).trans hgid)]
      exact ih fun c' hc' => h c' (List.mem_cons_of_mem c hc')
  induction k with
  | zero => rfl
  | succ k ih => rw [← Nat.add_assoc, sweep_succ, hnone (by omega), ih]

/-! ## Call by call -/

theorem foldl_comm_of_mem {α β : Type} {f : β → α → β} {g : β → β} {xs : List α}
    (h : ∀ x ∈ xs, ∀ b, f (g b) x = g (f b x)) (b : β) : xs.foldl f (g b) = g (xs.foldl f b) := by
  induction xs generalizing b with
  | nil => rfl
  | cons x xs ih =>
    rw [List.foldl_cons, List.foldl_cons, h x List.mem_cons_self]
    exact ih (fun y hy => h y (List.mem_cons_of_mem x hy)) _

/-- an invocation that commutes with earlier invocations of other calls may run before them -/
theorem sweep_effect_comm {gid n : Nat} (h : ∀ c' ∈ calls, ∀ gid' < n, ∀ m, c.effect gid (c'.effect gid' m) =
    c'.effect gid' (c.effect gid m)) (m : DeviceMemory) :
    sweep calls n (c.effect gid m) = c.effect gid (sweep calls n m) := by
  apply foldl_comm_of_mem
  intro gid' hgid' b
  apply foldl_comm_of_mem
  intro c' hc' b'
  exact (h c' hc' gid' (List.mem_range.1 hgid') b').symm

/-- **Fission.** If invocations at different indices commute, a group of calls may run call by call. -/
theorem sweep_eq_sweeps {n : Nat} (h : ∀ c ∈ calls, ∀ c' ∈ calls, ∀ gid < n, ∀ gid' < n, gid ≠ gid' → ∀ m,
    c.effect gid (c'.effect gid' m) = c'.effect gid' (c.effect gid m)) (m : DeviceMemory) :
    sweep calls n m = sweeps calls n m := by
  induction calls generalizing m with
  | nil =>
    have hid : ∀ m : DeviceMemory, sweep [] n m = m := fun m => by
      induction n with
      | zero => rfl
      | succ n ih => rw [sweep_succ, ih fun c hc => absurd hc (by simp)]; rfl
    exact hid m
  | cons c calls ih =>
    -- the first call alone, then the others: invocation `k` of the first call passes the earlier ones of the others
    have hsplit : ∀ k ≤ n, sweep (c :: calls) k m = sweep calls k (sweep [c] k m) := by
      intro k hk
      induction k with
      | zero => rfl
      | succ k ihk =>
        have hpass : sweep calls k (c.effect k (sweep [c] k m)) = c.effect k (sweep calls k (sweep [c] k m)) :=
          sweep_effect_comm (fun c' hc' gid' hgid' => h c List.mem_cons_self c' (List.mem_cons_of_mem c hc')
            k (by omega) gid' (by omega) (by omega)) _
        rw [sweep_succ, sweep_succ, sweep_succ, ihk (by omega)]
        change effects calls k (c.effect k (sweep calls k (sweep [c] k m))) =
          effects calls k (sweep calls k (c.effect k (sweep [c] k m)))
        rw [hpass]
    rw [hsplit n le_rfl, ih fun c₁ h₁ c₂ h₂ => h c₁ (List.mem_cons_of_mem c h₁) c₂ (List.mem_cons_of_mem c h₂)]
    rfl

end DeviceMemory

end ArrayEngine
