/-
Runs side by side.

Two devices can do the same without being the same: one has other shaders behind its handles, one keeps a log.
`SameEnd` says of two operations that they ended in the same way, with the same result or the same failure, and left
related states. What is alike step by step is alike over a run:
- `Run.once_alike` is a list of steps, `Run.times_alike` the same list `n` times over;
- `Gpu.Computation.runOn_alike`: computations whose dispatches are alike, between a submission and a retrieval;
- `Gpu.Executor.execute_alike`: so executions of them end in the same way and leave the same store.
-/
import Mathlib.Data.List.Forall2
import ArrayEngine.Executor.Gpu

namespace ArrayEngine

variable {α β σ τ : Type} {R : σ → τ → Prop}

/-- two operations that ended in the same way, in related states -/
inductive SameEnd (R : σ → τ → Prop) : EStateM.Result Failure σ α → EStateM.Result Failure τ α → Prop
  | ok (a : α) {s : σ} {t : τ} (h : R s t) : SameEnd R (.ok a s) (.ok a t)
  | error (f : Failure) {s : σ} {t : τ} (h : R s t) : SameEnd R (.error f s) (.error f t)

namespace Run

/-- two runs that ended in the same way after the same number of steps, in related states -/
structure Alike (R : σ → τ → Prop) (x : Run σ) (y : Run τ) : Prop where
  state : R x.state y.state
  begun : x.begun = y.begun
  failure : x.failure = y.failure

variable {step : α → EStateM Failure σ Unit} {step' : β → EStateM Failure τ Unit} {xs : List α} {ys : List β}

theorem once_alike
    (hsteps : List.Forall₂ (fun x y => ∀ s t, R s t → SameEnd R (step x s) (step' y t)) xs ys) (k : Nat)
    {s : σ} {t : τ} (h : R s t) : (once step xs k s).Alike R (once step' ys k t) := by
  induction hsteps generalizing k s t with
  | nil => exact ⟨h, rfl, rfl⟩
  | @cons x y xs ys hxy _ ih =>
    have hfirst := hxy s t h
    rw [once, once]
    generalize step x s = r, step' y t = r' at hfirst
    cases hfirst with
    | ok _ hnext => exact ih (k + 1) hnext
    | error f hstop => exact ⟨hstop, rfl, rfl⟩

/-- steps that are alike in related states: so are runs of them, `n` times over -/
theorem times_alike
    (hsteps : List.Forall₂ (fun x y => ∀ s t, R s t → SameEnd R (step x s) (step' y t)) xs ys) (n k : Nat)
    {s : σ} {t : τ} (h : R s t) : (times step xs n k s).Alike R (times step' ys n k t) := by
  induction n generalizing k s t with
  | zero => exact ⟨h, rfl, rfl⟩
  | succ n ih =>
    have honce := once_alike hsteps k h
    rw [times, times]
    generalize once step xs k s = run, once step' ys k t = run' at honce
    obtain ⟨s, k, failure⟩ := run
    obtain ⟨t, k', failure'⟩ := run'
    obtain ⟨hstate, rfl, rfl⟩ := honce
    cases failure with
    | none => exact ih k hstate
    | some f => exact ⟨hstate, rfl, rfl⟩

end Run

namespace Gpu

variable [Device σ] [Device τ] {c c' : Computation} {e : Executor σ} {e' : Executor τ}

/-- dispatches that end in the same way on related devices -/
def Step.Alike (R : σ → τ → Prop) (step step' : Step) : Prop :=
  ∀ d d', R d d' → SameEnd R (Device.dispatch step.shader step.workgroups d)
    (Device.dispatch step'.shader step'.workgroups d')

/-- two dispatches of all steps that ended in the same way, on related devices -/
structure Dispatched.Alike (R : σ → τ → Prop) (x : Dispatched σ) (y : Dispatched τ) : Prop where
  device : R x.device y.device
  begun : x.begun = y.begun
  result : x.result = y.result

/-- two executions that ended in the same way, with related devices and the same store -/
structure Executed.Alike (R : σ → τ → Prop) (x : Executed σ) (y : Executed τ) : Prop where
  device : R x.executor.device y.executor.device
  store : x.store = y.store
  begun : x.begun = y.begun
  result : x.result = y.result

theorem Computation.runOn_alike (hsteps : List.Forall₂ (Step.Alike R) c.steps c'.steps) {bytes : List UInt8} {d : σ}
    {d' : τ} (hsubmit : SameEnd R (Device.submit bytes d) (Device.submit bytes d'))
    (hretrieve : ∀ d d', R d d' →
      SameEnd R (Device.retrieve bytes.length d) (Device.retrieve bytes.length d')) (n : Nat) :
    (c.runOn bytes n d).Alike R (c'.runOn bytes n d') := by
  unfold runOn
  generalize Device.submit bytes d = submitted, Device.submit bytes d' = submitted' at hsubmit
  cases hsubmit with
  | error f h => exact ⟨h, rfl, rfl⟩
  | @ok _ d d' h =>
    have hrun := Run.times_alike hsteps n 0 h
    simp only
    generalize Run.times (fun step : Step => Device.dispatch step.shader step.workgroups) c.steps n 0 d = run,
      Run.times (fun step : Step => Device.dispatch step.shader step.workgroups) c'.steps n 0 d' = run' at hrun
    obtain ⟨d, begun, failure⟩ := run
    obtain ⟨d', begun', failure'⟩ := run'
    obtain ⟨hstate, rfl, rfl⟩ := hrun
    cases failure with
    | some f => exact ⟨hstate, rfl, rfl⟩
    | none =>
      have hlast := hretrieve d d' hstate
      simp only
      generalize Device.retrieve bytes.length d = answer, Device.retrieve bytes.length d' = answer' at hlast
      cases hlast with
      | ok _ h => exact ⟨h, rfl, rfl⟩
      | error _ h => exact ⟨h, rfl, rfl⟩

/-- computations with one layout and dispatches that are alike: executing them ends in the same way. The devices need
not be related as closely before the submission as after it -/
theorem Executor.execute_alike {Q : σ → τ → Prop} (hQ : ∀ d d', R d d' → Q d d') (hlayout : c.layout = c'.layout)
    (hsteps : List.Forall₂ (Step.Alike R) c.steps c'.steps) (hdevice : Q e.device e'.device) (buf : Buffer .gpu)
    (s : Store)
    (hsubmit : SameEnd R (Device.submit (buf.bytes s) e.device) (Device.submit (buf.bytes s) e'.device))
    (hretrieve : ∀ d d', R d d' → SameEnd R (Device.retrieve (buf.bytes s).length d)
      (Device.retrieve (buf.bytes s).length d')) (n : Nat) :
    (e.execute c buf s n).Alike Q (e'.execute c' buf s n) := by
  have hrun := Computation.runOn_alike hsteps hsubmit hretrieve n
  unfold execute
  rw [← hlayout]
  cases c.layout.verify buf.directory with
  | error f => exact ⟨hdevice, rfl, rfl, rfl⟩
  | ok _ =>
    simp only
    generalize c.runOn (buf.bytes s) n e.device = ran, c'.runOn (buf.bytes s) n e'.device = ran' at hrun
    obtain ⟨d, begun, result⟩ := ran
    obtain ⟨d', begun', result'⟩ := ran'
    obtain ⟨hstate, rfl, rfl⟩ := hrun
    cases result with
    | ok _ => exact ⟨hQ d d' hstate, rfl, rfl, rfl⟩
    | error _ => exact ⟨hQ d d' hstate, rfl, rfl, rfl⟩

end Gpu

end ArrayEngine
