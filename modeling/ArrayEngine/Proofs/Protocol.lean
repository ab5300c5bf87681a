/-
What an execution asks of a device.

`Observed` is a device that notes every request that is made of it, with all its data and with how it ended, and passes
it on. An execution on it is the execution on the device behind it (`execute_observed`), so the notes are what really
happens there.
- `Served` says of notes that they are those of requests made one after the other until one fails. `once_served` is a
  list of dispatches, `times_served` the same list `n` times over, `runOn_served` all of it with the submission and the
  retrieval;
- `execute_protocol`: so a device is not touched if the layout does not match; it sees one submission, every dispatch in
  order and one retrieval if all goes well; nothing follows a dispatch that fails, and the buffer is then as before.
-/
import ArrayEngine.Proofs.Isolation

namespace ArrayEngine

/-! ## Notes -/

/-- what a device is asked for -/
inductive Device.Request where
  | submit (bytes : List UInt8)
  | compile (source : String)
  | dispatch (h : ShaderHandle) (workgroups : Nat)
  | retrieve (size : Nat)
  deriving DecidableEq

/-- a request that was made, and the failure it ended in, if it did -/
structure Device.Note where
  request : Request
  failure : Option Failure
  deriving DecidableEq

open Device (Request Note)

/-- a request that was carried out -/
def Device.Note.done (r : Request) : Note := ⟨r, none⟩

/-- a request that failed -/
def Device.Note.failed (r : Request) (f : Failure) : Note := ⟨r, some f⟩

/-- the notes of requests that are made one after the other until one fails, and that failure -/
inductive Served : List Request → List Note → Option Failure → Prop
  | nil : Served [] [] none
  | done (r : Request) {rs : List Request} {log : List Note} {f : Option Failure} (h : Served rs log f) :
      Served (r :: rs) (.done r :: log) f
  | failed (r : Request) (rs : List Request) (f : Failure) : Served (r :: rs) [.failed r f] (some f)

namespace Served

variable {rs rs' : List Request} {log log' : List Note} {f : Option Failure}

/-- requests that are made after others, all of which were carried out -/
theorem append (h : Served rs log none) (h' : Served rs' log' f) : Served (rs ++ rs') (log ++ log') f := by
  induction rs generalizing log with
  | nil =>
    cases h
    exact h'
  | cons r rs ih =>
    cases h with
    | done _ h => exact .done r (ih h)

/-- after a failure no request is made -/
theorem stop {e : Failure} (h : Served rs log (some e)) (rs' : List Request) : Served (rs ++ rs') log (some e) := by
  induction rs generalizing log with
  | nil => cases h
  | cons r rs ih =>
    cases h with
    | done _ h => exact .done r (ih h)
    | failed => exact .failed r (rs ++ rs') e

/-- if nothing failed, every request was carried out -/
theorem eq_done (h : Served rs log none) : log = rs.map .done := by
  induction rs generalizing log with
  | nil =>
    cases h
    rfl
  | cons r rs ih =>
    cases h with
    | done _ h => rw [ih h, List.map_cons]

/-- a request that failed is the last one that was made -/
theorem of_failed (h : Served rs log f) {r : Request} {e : Failure} (hmem : Note.failed r e ∈ log) :
    f = some e ∧ ∃ before after, rs = before ++ r :: after ∧ log = before.map .done ++ [.failed r e] := by
  induction h with
  | nil => cases hmem
  | done r' _ ih =>
    rcases List.mem_cons.1 hmem with heq | hmem
    · cases heq
    · obtain ⟨hf, before, after, rfl, rfl⟩ := ih hmem
      exact ⟨hf, r' :: before, after, rfl, rfl⟩
  | failed r' rs f =>
    cases List.mem_singleton.1 hmem
    exact ⟨rfl, [], rs, rfl, rfl⟩

end Served

/-! ## Observed devices -/

/-- a device with notes of what was asked of it -/
structure Observed (δ : Type) where
  device : δ
  log : List Note

namespace Observed

variable {α δ : Type}

/-- an observed device that stands for a device -/
def Watches (o : Observed δ) (d : δ) : Prop := o.device = d

/-- a request passed on and noted -/
def noting (r : Request) (act : EStateM Failure δ α) : EStateM Failure (Observed δ) α := fun o =>
  match act o.device with
  | .ok a d => .ok a ⟨d, o.log ++ [.done r]⟩
  | .error f d => .error f ⟨d, o.log ++ [.failed r f]⟩

instance [Device δ] : Device (Observed δ) where
  name := Device.name δ
  submit bytes := noting (.submit bytes) (Device.submit bytes)
  compile source := noting (.compile source) (Device.compile source)
  dispatch h workgroups := noting (.dispatch h workgroups) (Device.dispatch h workgroups)
  retrieve size := noting (.retrieve size) (Device.retrieve size)

/-- a note does not change how a request ends -/
theorem noting_alike (r : Request) (act : EStateM Failure δ α) {o : Observed δ} {d : δ} (h : o.Watches d) :
    SameEnd Watches (noting r act o) (act d) := by
  subst h
  unfold noting
  cases act o.device with
  | ok a d => exact .ok a rfl
  | error f d => exact .error f rfl

/-- the steps of a list, each of which makes one request -/
theorem once_served (request : α → Request) (act : α → EStateM Failure δ Unit) (xs : List α) (k : Nat)
    (o : Observed δ) : ∃ log,
      (Run.once (fun x => noting (request x) (act x)) xs k o).state.log = o.log ++ log ∧
        Served (xs.map request) log (Run.once (fun x => noting (request x) (act x)) xs k o).failure := by
  induction xs generalizing k o with
  | nil => exact ⟨[], (List.append_nil _).symm, .nil⟩
  | cons x xs ih =>
    simp only [Run.once, noting]
    cases act x o.device with
    | error f d => exact ⟨[.failed (request x) f], rfl, .failed _ _ f⟩
    | ok _ d =>
      obtain ⟨log, hlog, hserved⟩ := ih (k + 1) ⟨d, o.log ++ [.done (request x)]⟩
      refine ⟨.done (request x) :: log, ?_, .done _ hserved⟩
      exact hlog.trans (List.append_assoc _ _ _)

/-- the steps of a list, `n` times over -/
theorem times_served (request : α → Request) (act : α → EStateM Failure δ Unit) (xs : List α) (n k : Nat)
    (o : Observed δ) : ∃ log,
      (Run.times (fun x => noting (request x) (act x)) xs n k o).state.log = o.log ++ log ∧
        Served (List.replicate n (xs.map request)).flatten log
          (Run.times (fun x => noting (request x) (act x)) xs n k o).failure := by
  induction n generalizing k o with
  | zero => exact ⟨[], (List.append_nil _).symm, .nil⟩
  | succ n ih =>
    obtain ⟨log, hlog, hserved⟩ := once_served request act xs k o
    rw [Run.times, List.replicate_succ, List.flatten_cons]
    generalize Run.once (fun x => noting (request x) (act x)) xs k o = run at hlog hserved
    obtain ⟨o', k', failure⟩ := run
    cases failure with
    | some f => exact ⟨log, hlog, hserved.stop _⟩
    | none =>
      obtain ⟨log', hlog', hserved'⟩ := ih k' o'
      refine ⟨log ++ log', ?_, hserved.append hserved'⟩
      calc (Run.times (fun x => noting (request x) (act x)) xs n k' o').state.log = o'.log ++ log' := hlog'
        _ = o.log ++ log ++ log' := congrArg (· ++ log') hlog
        _ = o.log ++ (log ++ log') := List.append_assoc _ _ _

end Observed

/-! ## Executions -/

/-- the failure that something ended in -/
def failure? {α : Type} : Except Failure α → Option Failure
  | .ok _ => none
  | .error f => some f

theorem failure?_eq_some {α : Type} {x : Except Failure α} {f : Failure} : failure? x = some f ↔ x = .error f := by
  cases x <;> simp [failure?]

namespace Gpu

/-- the dispatches of a computation, `n` times over -/
def Computation.dispatches (c : Computation) (n : Nat) : List Request :=
  (List.replicate n (c.steps.map fun step => .dispatch step.shader step.workgroups)).flatten

/-- what an execution asks of a device -/
def Computation.requests (c : Computation) (bytes : List UInt8) (n : Nat) : List Request :=
  .submit bytes :: (c.dispatches n ++ [.retrieve bytes.length])

/-- a dispatch among the requests of an execution is one of the computation, behind the submission -/
theorem Computation.dispatch_of_requests {c : Computation} {bytes : List UInt8} {n : Nat} {before after : List Request}
    {h : ShaderHandle} {workgroups : Nat} (heq : c.requests bytes n = before ++ .dispatch h workgroups :: after) :
    ∃ before', before = .submit bytes :: before' ∧
      ∃ after', c.dispatches n = before' ++ .dispatch h workgroups :: after' := by
  cases before with
  | nil => cases heq
  | cons r before =>
    obtain ⟨rfl, hrest⟩ := List.cons.inj heq
    refine ⟨before, rfl, ?_⟩
    rcases List.append_eq_append_iff.1 hrest with ⟨middle, -, hlast⟩ | ⟨middle, hdispatches, hlast⟩
    · -- the retrieval would be the dispatch, or stand before it
      rcases middle with _ | ⟨_, _ | _⟩ <;> cases hlast
    · cases middle with
      | nil => cases hlast
      | cons _ after' =>
        obtain ⟨rfl, -⟩ := List.cons.inj hlast
        exact ⟨after', hdispatches⟩

variable {δ : Type} [Device δ]

theorem Computation.runOn_served (c : Computation) (bytes : List UInt8) (n : Nat) (d : δ) :
    Served (c.requests bytes n) (c.runOn bytes n (⟨d, []⟩ : Observed δ)).device.log
      (failure? (c.runOn bytes n (⟨d, []⟩ : Observed δ)).result) := by
  simp only [runOn, Device.submit, Observed.noting]
  cases Device.submit bytes d with
  | error f d => exact .failed _ _ f
  | ok _ d =>
    obtain ⟨log, hlog, hserved⟩ := Observed.times_served (fun step : Step => .dispatch step.shader step.workgroups)
      (fun step => Device.dispatch step.shader step.workgroups) c.steps n 0 (⟨d, [.done (.submit bytes)]⟩ : Observed δ)
    simp only [Device.dispatch, List.nil_append]
    generalize Run.times (fun step : Step => Observed.noting (.dispatch step.shader step.workgroups)
      (Device.dispatch step.shader step.workgroups)) c.steps n 0 (⟨d, [.done (.submit bytes)]⟩ : Observed δ) = run
      at hlog hserved
    obtain ⟨o, begun, failure⟩ := run
    simp only at hlog hserved
    cases failure with
    | some f =>
      simp only [hlog]
      exact .done _ (hserved.stop _)
    | none =>
      simp only [Device.retrieve, Observed.noting]
      cases Device.retrieve bytes.length o.device with
      | error f d =>
        simp only [hlog]
        exact .done _ (hserved.append (.failed _ _ f))
      | ok out d =>
        simp only [hlog]
        exact .done _ (hserved.append (.done _ .nil))

namespace Executor

/-- the executor with a device that notes what is asked of it -/
def observed (e : Executor δ) : Executor (Observed δ) := ⟨⟨e.device, []⟩, e.localSize, e.fingerprint, e.cache⟩

/-- what an execution asked of the device, and how each request ended -/
def asked (e : Executor δ) (c : Computation) (buf : Buffer .gpu) (s : Store) (n : Nat) : List Note :=
  (e.observed.execute c buf s n).executor.device.log

/-- notes change nothing: an observed execution is the execution, on the device behind the notes -/
theorem execute_observed (e : Executor δ) (c : Computation) (buf : Buffer .gpu) (s : Store) (n : Nat) :
    (e.observed.execute c buf s n).Alike Observed.Watches (e.execute c buf s n) := by
  have hstart : e.observed.device.Watches e.device := rfl
  exact execute_alike (R := Observed.Watches) (fun _ _ h => h) rfl
    (List.forall₂_same.2 fun _ _ _ _ h => Observed.noting_alike _ _ h) hstart buf s (Observed.noting_alike _ _ hstart)
    (fun _ _ h => Observed.noting_alike _ _ h) n

/-- where the layout matches, the notes are those of the requests of the computation, and their failure is how the
execution ended -/
theorem asked_served (e : Executor δ) (c : Computation) (buf : Buffer .gpu) (s : Store) (n : Nat) {u : Unit}
    (hv : c.layout.verify buf.directory = .ok u) :
    Served (c.requests (buf.bytes s) n) (e.asked c buf s n) (failure? (e.observed.execute c buf s n).result) := by
  have hserved := c.runOn_served (buf.bytes s) n e.device
  simp only [asked, execute, hv, observed]
  revert hserved
  cases (c.runOn (buf.bytes s) n (⟨e.device, []⟩ : Observed δ)).result <;> exact id

/-- **Protocol.** Watching an execution changes nothing about it, whatever the device, the buffer and the computation
are. If the layout does not match, the device is not asked for anything, and executor and store are as before. If the
execution succeeds, the device carried out one submission of all bytes, the dispatches of all steps in order, `n` times
over, and one retrieval of as many bytes, and nothing else. If a dispatch fails, it was the last request, the requests
before it were carried out, and the store is as before; and so it is after any failure. -/
theorem execute_protocol (e : Executor δ) (c : Computation) (buf : Buffer .gpu) (s : Store) (n : Nat) :
    (e.observed.execute c buf s n).Alike Observed.Watches (e.execute c buf s n) ∧
    (∀ f, c.layout.verify buf.directory = .error f →
      e.asked c buf s n = [] ∧ e.execute c buf s n = ⟨e, s, 0, .error (.refused f)⟩) ∧
    ((e.execute c buf s n).result = .ok () → e.asked c buf s n = (c.requests (buf.bytes s) n).map .done) ∧
    (∀ h workgroups f, .failed (.dispatch h workgroups) f ∈ e.asked c buf s n →
      (e.execute c buf s n).result = .error f ∧ (e.execute c buf s n).store = s ∧
        ∃ before after, c.dispatches n = before ++ .dispatch h workgroups :: after ∧
          e.asked c buf s n =
            (.submit (buf.bytes s) :: before).map .done ++ [.failed (.dispatch h workgroups) f]) ∧
    ∀ f, (e.execute c buf s n).result = .error f → (e.execute c buf s n).store = s := by
  have halike := e.execute_observed c buf s n
  cases hv : c.layout.verify buf.directory with
  | error f =>
    have hasked : e.asked c buf s n = [] := by simp only [asked, execute, hv]; rfl
    have hexec : e.execute c buf s n = ⟨e, s, 0, .error (.refused f)⟩ := by simp only [execute, hv]
    refine ⟨halike, ?_, ?_, ?_, fun f hf => store_execute_of_error hf⟩
    · intro f' hf'
      cases hf'
      exact ⟨hasked, hexec⟩
    · intro hok
      rw [hexec] at hok
      cases hok
    · intro h workgroups f' hmem
      rw [hasked] at hmem
      cases hmem
  | ok _ =>
    have hserved := e.asked_served c buf s n hv
    rw [halike.result] at hserved
    refine ⟨halike, ?_, ?_, ?_, fun f hf => store_execute_of_error hf⟩
    · intro f hf
      cases hf
    · intro hok
      rw [hok] at hserved
      exact hserved.eq_done
    · intro h workgroups f hmem
      obtain ⟨hf, before, after, hrequests, hlog⟩ := hserved.of_failed hmem
      have hresult := failure?_eq_some.1 hf
      obtain ⟨before, rfl, after', hdispatches⟩ := Computation.dispatch_of_requests hrequests
      exact ⟨hresult, store_execute_of_error hresult, before, after', hdispatches, hlog⟩

open Session

/-- two steps, the second one with a handle that the first shader of a device does not have -/
def foreign : Computation := ⟨[⟨"", ⟨0⟩, 2, 4, 1, []⟩, ⟨"", ⟨1⟩, 2, 4, 1, []⟩], pairLayout, 4⟩

/-- an executor over a device with one shader, which doubles the vector of `pair` -/
def doubler : Executor HostDevice := ⟨⟨none, #[⟨4, [.scale 0 0 2 ⟨0x40000000⟩]⟩]⟩, 4, fingerprintOf, []⟩

/-- the first dispatch of `foreign` has changed the device when the second one fails; the store is as before -/
theorem execute_protocol_sample :
    doubler.asked foreign pairBuffer (run .empty pair).store 3 =
        [.done (.submit (pairBuffer.bytes (run .empty pair).store)), .done (.dispatch ⟨0⟩ 1),
          .failed (.dispatch ⟨1⟩ 1) (.refused (.device (.unknownShader 1)))] ∧
      (doubler.execute foreign pairBuffer (run .empty pair).store 3).executor.device.memory =
        some #[⟨0x40000000⟩, ⟨0x40800000⟩] ∧
      (doubler.execute foreign pairBuffer (run .empty pair).store 3).store = (run .empty pair).store := by
  have hasked : doubler.asked foreign pairBuffer (run .empty pair).store 3 =
      [.done (.submit (pairBuffer.bytes (run .empty pair).store)), .done (.dispatch ⟨0⟩ 1),
        .failed (.dispatch ⟨1⟩ 1) (.refused (.device (.unknownShader 1)))] := by decide +kernel
  obtain ⟨-, -, -, hfailed, -⟩ := execute_protocol doubler foreign pairBuffer (run .empty pair).store 3
  obtain ⟨-, hstore, -⟩ := hfailed ⟨1⟩ 1 (.refused (.device (.unknownShader 1))) (by simp [hasked])
  exact ⟨hasked, by decide +kernel, hstore⟩

end Executor

end Gpu

end ArrayEngine
