/-
Running a list of steps, several times over.

A step changes a state and may fail; the state it leaves then stays. `once` runs the steps in order and `times` does so
n times. A run ends at the first failure. Beside the state a run says how many steps were begun, the failing one
included.
-/
import ArrayEngine.Error

namespace ArrayEngine

/-- how a run ended: the state it left, how many steps were begun, and what ended it early -/
structure Run (σ : Type) where
  state : σ
  begun : Nat
  failure : Option Failure

namespace Run

variable {α σ : Type}

/-- a change that either succeeds or leaves the state as it is -/
def attempt (f : σ → Except Failure σ) : EStateM Failure σ Unit := fun s =>
  match f s with
  | .ok s => .ok () s
  | .error e => .error e s

/-- the steps in order, after `k` steps that were begun before -/
def once (step : α → EStateM Failure σ Unit) : List α → Nat → σ → Run σ
  | [], k, s => ⟨s, k, none⟩
  | x :: xs, k, s =>
    match step x s with
    | .ok _ s => once step xs (k + 1) s
    | .error e s => ⟨s, k + 1, some e⟩

/-- the steps in order, `n` times, after `k` steps that were begun before -/
def times (step : α → EStateM Failure σ Unit) (xs : List α) : Nat → Nat → σ → Run σ
  | 0, k, s => ⟨s, k, none⟩
  | n + 1, k, s =>
    match once step xs k s with
    | ⟨s, k, none⟩ => times step xs n k s
    | stopped => stopped

end Run

/-- the first `n` of a list of steps that is repeated without end -/
def firstOfCycle {α : Type} (xs : List α) (n : Nat) : List α :=
  (List.range n).filterMap fun i => xs[i % xs.length]?

/-- how serious a line of the log is -/
inductive LogLevel where
  | debug
  | warn
  deriving DecidableEq, Repr

def LogLevel.name : LogLevel → String
  | debug => "debug"
  | warn => "warn"

/-- a line of the log -/
structure LogLine where
  level : LogLevel
  text : String
  deriving DecidableEq, Repr

def LogLine.render (l : LogLine) : String := s!"{l.level.name}: {l.text}"

end ArrayEngine
