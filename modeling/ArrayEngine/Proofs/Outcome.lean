/-
When a computation that can fail succeeds.

Every operation of the library ends in a result, a refusal or a fault. The lemmas here open a chain of such operations:
`bind_eq_ok` for one step, `lift_fault_eq_ok` and `lift_refusal_eq_ok` for the passage to the larger type of failures,
`mapM_eq_ok` and `forM_eq_ok` for a list of them. `Run.times_eq` says what a run of steps comes to that cannot fail
where an invariant holds; `Run.times_keeps` says that a run keeps what its steps keep, also where one fails.
-/
import Mathlib.Data.List.Forall2
import Mathlib.Logic.Function.Iterate
import ArrayEngine.Run

namespace ArrayEngine

variable {ε α β : Type}

theorem bind_eq_ok {x : Except ε α} {f : α → Except ε β} {b : β} :
    (x >>= f) = .ok b ↔ ∃ a, x = .ok a ∧ f a = .ok b := by
  cases x <;> simp [bind, Except.bind]

theorem bind_eq_error {x : Except ε α} {f : α → Except ε β} {e : ε} :
    (x >>= f) = .error e ↔ x = .error e ∨ ∃ a, x = .ok a ∧ f a = .error e := by
  cases x <;> simp [bind, Except.bind]

@[simp]
theorem ok_bind (a : α) (f : α → Except ε β) : (Except.ok a >>= f) = f a := rfl

@[simp]
theorem error_bind (e : ε) (f : α → Except ε β) : ((Except.error e : Except ε α) >>= f) = .error e := rfl

theorem pure_eq (a : α) : (pure a : Except ε α) = .ok a := rfl

@[simp]
theorem pure_eq_ok {a b : α} : (pure a : Except ε α) = .ok b ↔ a = b := by
  simp [pure, Except.pure]

theorem pure_ne_error {a : α} {e : ε} : ¬(pure a : Except ε α) = .error e := nofun

@[simp]
theorem throw_ne_ok {e : ε} {a : α} : ¬(throw e : Except ε α) = .ok a := by
  simp [throw, throwThe, MonadExceptOf.throw]

@[simp]
theorem lift_fault_eq_ok {x : Except Fault α} {a : α} : (liftM x : Except Failure α) = .ok a ↔ x = .ok a := by
  cases x <;> simp [liftM, monadLift, MonadLift.monadLift, Except.mapError]

@[simp]
theorem lift_refusal_eq_ok {x : Except EngineError α} {a : α} :
    (liftM x : Except Failure α) = .ok a ↔ x = .ok a := by
  cases x <;> simp [liftM, monadLift, MonadLift.monadLift, Except.mapError]

theorem lift_fault_eq_error {x : Except Fault α} {f : Failure} :
    (liftM x : Except Failure α) = .error f ↔ ∃ e, x = .error e ∧ f = .fault e := by
  cases x <;> simp [liftM, monadLift, MonadLift.monadLift, Except.mapError, eq_comm]

theorem ok_lift_fault (a : α) : (liftM (.ok a : Except Fault α) : Except Failure α) = .ok a := rfl

theorem ok_lift_refusal (a : α) : (liftM (.ok a : Except EngineError α) : Except Failure α) = .ok a := rfl

theorem ite_pure_eq_ok {p : Prop} [Decidable p] {e : ε} {a b : α} :
    (if p then pure a else throw e : Except ε α) = .ok b ↔ p ∧ a = b := by
  split_ifs with h <;> simp [h]

@[simp]
theorem toOption_eq_some {x : Except ε α} {a : α} : x.toOption = some a ↔ x = .ok a := by
  cases x <;> simp [Except.toOption]

theorem mapM_cons_eq_ok {f : α → Except ε β} {x : α} {xs : List α} {ys : List β} :
    (x :: xs).mapM f = .ok ys ↔ ∃ y rest, f x = .ok y ∧ xs.mapM f = .ok rest ∧ ys = y :: rest := by
  simp only [List.mapM_cons, bind_eq_ok, pure_eq_ok]
  refine ⟨?_, ?_⟩
  · intro hok
    obtain ⟨y, hy, rest, hrest, rfl⟩ := hok
    exact ⟨y, rest, hy, hrest, rfl⟩
  · intro hspec
    obtain ⟨y, rest, hy, hrest, rfl⟩ := hspec
    exact ⟨y, hy, rest, hrest, rfl⟩

/-- a list of operations succeeds if each of them does -/
theorem mapM_eq_ok {f : α → Except ε β} {xs : List α} {ys : List β} :
    xs.mapM f = .ok ys ↔ List.Forall₂ (fun x y => f x = .ok y) xs ys := by
  induction xs generalizing ys with
  | nil => rw [List.mapM_nil, pure_eq_ok, List.forall₂_nil_left_iff, eq_comm]
  | cons x xs ih => simp only [mapM_cons_eq_ok, ih, List.forall₂_cons_left_iff, exists_and_left]

theorem mapM_append_eq_ok {f : α → Except ε β} {xs ys : List α} {zs : List β} :
    (xs ++ ys).mapM f = .ok zs ↔ ∃ as bs, xs.mapM f = .ok as ∧ ys.mapM f = .ok bs ∧ as ++ bs = zs := by
  simp only [List.mapM_append, bind_eq_ok, pure_eq_ok]
  refine ⟨?_, ?_⟩
  · intro hok
    obtain ⟨as, has, bs, hbs, rfl⟩ := hok
    exact ⟨as, bs, has, hbs, rfl⟩
  · intro hspec
    obtain ⟨as, bs, has, hbs, rfl⟩ := hspec
    exact ⟨as, has, bs, hbs, rfl⟩

theorem exists_of_mem_mapM {f : α → Except ε β} {xs : List α} {ys : List β} (h : xs.mapM f = .ok ys) {y : β}
    (hy : y ∈ ys) : ∃ x ∈ xs, f x = .ok y := by
  replace h := mapM_eq_ok.1 h
  induction h with
  | nil => simp at hy
  | @cons x z xs zs hx _ ih =>
    rcases List.mem_cons.1 hy with rfl | hy
    · exact ⟨x, List.mem_cons_self, hx⟩
    · obtain ⟨w, hw, hwy⟩ := ih hy
      exact ⟨w, List.mem_cons_of_mem x hw, hwy⟩

/-- what the results of a list of operations have of their arguments -/
theorem map_of_mapM {γ : Type} {f : α → Except ε β} {xs : List α} {ys : List β} (h : xs.mapM f = .ok ys) {g : β → γ}
    {k : α → γ} (hg : ∀ x y, f x = .ok y → g y = k x) : ys.map g = xs.map k := by
  replace h := mapM_eq_ok.1 h
  induction h with
  | nil => rfl
  | cons hx _ ih => rw [List.map_cons, List.map_cons, hg _ _ hx, ih]

theorem exists_mapM_eq_ok {f : α → Except ε β} {xs : List α} :
    (∃ ys, xs.mapM f = .ok ys) ↔ ∀ x ∈ xs, ∃ y, f x = .ok y := by
  induction xs with
  | nil => simp
  | cons x xs ih =>
    simp only [mapM_cons_eq_ok, List.forall_mem_cons, ← ih]
    refine ⟨?_, ?_⟩
    · intro hok
      obtain ⟨_, y, rest, hy, hrest, rfl⟩ := hok
      exact ⟨⟨y, hy⟩, rest, hrest⟩
    · intro hspec
      obtain ⟨⟨y, hy⟩, rest, hrest⟩ := hspec
      exact ⟨_, y, rest, hy, hrest, rfl⟩

/-- what fails in a list of operations is the first one that does -/
theorem mapM_append_cons_of_error {f : α → Except ε β} {before : List α} {x : α} {e : ε}
    (hbefore : ∀ y ∈ before, ∃ b, f y = .ok b) (hx : f x = .error e) (after : List α) :
    (before ++ x :: after).mapM f = .error e := by
  obtain ⟨ys, hys⟩ := exists_mapM_eq_ok.2 hbefore
  rw [List.mapM_append, hys, ok_bind, List.mapM_cons, hx, error_bind, error_bind]

theorem exists_of_mapM_eq_error {f : α → Except ε β} {xs : List α} {e : ε} (h : xs.mapM f = .error e) :
    ∃ before x after, xs = before ++ x :: after ∧ (∀ y ∈ before, ∃ b, f y = .ok b) ∧ f x = .error e := by
  induction xs with
  | nil => cases h
  | cons x xs ih =>
    cases hx : f x with
    | error e' =>
      rw [List.mapM_cons, hx, error_bind] at h
      cases h
      exact ⟨[], x, xs, rfl, nofun, hx⟩
    | ok b =>
      have hxs : xs.mapM f = .error e := by
        rw [List.mapM_cons, hx, ok_bind] at h
        cases hrest : xs.mapM f with
        | ok ys =>
          rw [hrest] at h
          cases h
        | error e' =>
          rw [hrest] at h
          cases h
          rfl
      obtain ⟨before, y, after, rfl, hbefore, hy⟩ := ih hxs
      exact ⟨x :: before, y, after, rfl, List.forall_mem_cons.2 ⟨⟨b, hx⟩, hbefore⟩, hy⟩

/-- a list of checks passes if each of them does -/
theorem forM_eq_ok {f : α → Except ε Unit} {xs : List α} {u : Unit} : xs.forM f = .ok u ↔ ∀ x ∈ xs, f x = .ok () := by
  induction xs with
  | nil => simp [pure, Except.pure]
  | cons x xs ih =>
    change (f x >>= fun _ => xs.forM f) = .ok u ↔ _
    rw [bind_eq_ok, List.forall_mem_cons, ← ih]
    refine ⟨?_, ?_⟩
    · intro hok
      obtain ⟨_, hx, hxs⟩ := hok
      exact ⟨hx, hxs⟩
    · exact fun ⟨hx, hxs⟩ => ⟨(), hx, hxs⟩

/-- what fails in a list of checks is the first one that does -/
theorem forM_eq_error {f : α → Except ε Unit} {xs : List α} {e : ε} : xs.forM f = .error e ↔
    ∃ before x after, xs = before ++ x :: after ∧ (∀ y ∈ before, f y = .ok ()) ∧ f x = .error e := by
  induction xs with
  | nil =>
    refine ⟨nofun, ?_⟩
    rintro ⟨before, x, after, h, -⟩
    exact absurd h.symm (List.append_ne_nil_of_right_ne_nil _ (List.cons_ne_nil x after))
  | cons x xs ih =>
    change (f x >>= fun _ => xs.forM f) = .error e ↔ _
    constructor
    · intro h
      cases hx : f x with
      | error e' =>
        rw [hx, error_bind] at h
        cases h
        exact ⟨[], x, xs, rfl, nofun, hx⟩
      | ok u =>
        rw [hx, ok_bind] at h
        obtain ⟨before, y, after, rfl, hbefore, hy⟩ := ih.1 h
        exact ⟨x :: before, y, after, rfl, List.forall_mem_cons.2 ⟨hx, hbefore⟩, hy⟩
    · rintro ⟨_ | ⟨z, before⟩, y, after, hxs, hbefore, hy⟩
      · obtain ⟨rfl, rfl⟩ := List.cons.inj hxs
        rw [hy, error_bind]
      · obtain ⟨rfl, hrest⟩ := List.cons.inj hxs
        obtain ⟨hx, hbefore⟩ := List.forall_mem_cons.1 hbefore
        rw [hx, ok_bind]
        exact ih.2 ⟨before, y, after, hrest, hbefore, hy⟩

theorem forM_congr {f g : α → Except ε Unit} {xs : List α} (h : ∀ x ∈ xs, f x = g x) : xs.forM f = xs.forM g := by
  induction xs with
  | nil => rfl
  | cons x xs ih =>
    change (f x >>= fun _ => xs.forM f) = (g x >>= fun _ => xs.forM g)
    rw [h x List.mem_cons_self, ih fun y hy => h y (List.mem_cons_of_mem x hy)]

/-! ## Operations with a state -/

section

variable {σ : Type} {s s' : σ}

theorem get_bind (f : σ → EStateM ε σ α) (s : σ) : (get >>= f) s = f s s := rfl

/-- an operation goes on with the result and the state of its first step -/
theorem bind_of_ok {x : EStateM ε σ α} {a : α} (h : x s = .ok a s') (f : α → EStateM ε σ β) : (x >>= f) s = f a s' := by
  simp only [bind, EStateM.bind, h]

theorem bind_of_error {x : EStateM ε σ α} {e : ε} (h : x s = .error e s') (f : α → EStateM ε σ β) :
    (x >>= f) s = .error e s' := by
  simp only [bind, EStateM.bind, h]

end

/-- the state that an operation leaves, however it ends -/
def stateAfter {σ : Type} : EStateM.Result ε σ α → σ
  | .ok _ s => s
  | .error _ s => s

namespace Run

variable {σ : Type} {P : σ → Prop} {step : α → EStateM Failure σ Unit} {f : σ → α → σ} {xs : List α}

theorem once_eq (hstep : ∀ x ∈ xs, ∀ s, P s → step x s = .ok () (f s x) ∧ P (f s x)) (k : Nat) {s : σ} (hs : P s) :
    once step xs k s = ⟨xs.foldl f s, k + xs.length, none⟩ ∧ P (xs.foldl f s) := by
  induction xs generalizing k s with
  | nil => exact ⟨rfl, hs⟩
  | cons x xs ih =>
    obtain ⟨hx, hs'⟩ := hstep x List.mem_cons_self s hs
    obtain ⟨h1, h2⟩ := ih (fun y hy => hstep y (List.mem_cons_of_mem x hy)) (k + 1) hs'
    refine ⟨?_, h2⟩
    rw [once, hx]
    simp only [h1, List.foldl_cons, List.length_cons]
    congr 1
    omega

/-- steps that succeed and keep an invariant: a run of them folds their effects over the state, `n` times -/
theorem times_eq (hstep : ∀ x ∈ xs, ∀ s, P s → step x s = .ok () (f s x) ∧ P (f s x)) (n k : Nat) {s : σ} (hs : P s) :
    times step xs n k s = ⟨(xs.foldl f)^[n] s, k + n * xs.length, none⟩ ∧ P ((xs.foldl f)^[n] s) := by
  induction n generalizing k s with
  | zero => exact ⟨by simp [times], hs⟩
  | succ n ih =>
    obtain ⟨h1, hs'⟩ := once_eq hstep k hs
    obtain ⟨h2, h3⟩ := ih (k + xs.length) hs'
    refine ⟨?_, h3⟩
    rw [times, h1]
    simp only [h2, Function.iterate_succ_apply]
    congr 1
    rw [Nat.succ_mul]
    omega

/-- what every step keeps, however it ends, a run keeps -/
theorem once_keeps (hstep : ∀ x s, P s → P (stateAfter (step x s))) (xs : List α) (k : Nat) {s : σ} (hs : P s) :
    P (once step xs k s).state := by
  induction xs generalizing k s with
  | nil => exact hs
  | cons x xs ih =>
    have hx := hstep x s hs
    rw [once]
    cases hr : step x s with
    | error f s' =>
      rw [hr] at hx
      exact hx
    | ok _ s' =>
      rw [hr] at hx
      exact ih (k + 1) hx

theorem times_keeps (hstep : ∀ x s, P s → P (stateAfter (step x s))) (xs : List α) (n k : Nat) {s : σ} (hs : P s) :
    P (times step xs n k s).state := by
  induction n generalizing k s with
  | zero => exact hs
  | succ n ih =>
    have honce := once_keeps hstep xs k hs
    rw [times]
    split
    · next hr =>
      rw [hr] at honce
      exact ih _ honce
    · exact honce

end Run

end ArrayEngine
