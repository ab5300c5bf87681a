/-
Chaining descriptions and repeating them is sequential composition, on both backends.

A chain is compiled as one unit, and on a device its commands are fused across the seam; executions one after the other
pass the arena through the device once for each. Both come to the effects of the same commands in the same order.
- `exists_compile_chain`: a chain compiles exactly if its parts do, each on any executor;
- `resolve_repeated`: the copies of a description resolve to the copies of its commands, and so have their effects as
  often;
- `execute_after`: an execution on the buffer that another execution left goes on from there;
- `execute_compose`: so a chain does what its parts do one after the other, and repeating adds up.
-/
import ArrayEngine.Proofs.Runner

namespace ArrayEngine

open Shader (Snippet)

/-- copies of a description, chained -/
def Description.repeated (description : Description) : Nat → Description
  | 0 => .empty
  | n + 1 => (description.repeated n).chain description

variable {b : Backend} {d : Directory} {a : Arena}

/-! ## Descriptions -/

namespace Command

theorem resolveAll_chain {D D' : Description} {rs : List Resolved} :
    resolveAll d (D.chain D') = .ok rs ↔
      ∃ rs₁ rs₂, resolveAll d D = .ok rs₁ ∧ resolveAll d D' = .ok rs₂ ∧ rs₁ ++ rs₂ = rs := mapM_append_eq_ok

/-- the copies of a description resolve, and have the effects of one copy as often -/
theorem resolve_repeated {D : Description} {rs : List Resolved} (h : resolveAll d D = .ok rs) (hacc : Accepted b rs)
    (n : Nat) :
    ∃ rs', resolveAll d (D.repeated n) = .ok rs' ∧ Accepted b rs' ∧ ∀ a, applyAll b rs' a = (applyAll b rs)^[n] a := by
  induction n with
  | zero => exact ⟨[], rfl, accepted_nil, fun _ => rfl⟩
  | succ n ih =>
    obtain ⟨rs', hrs', hacc', happly⟩ := ih
    refine ⟨rs' ++ rs, resolveAll_chain.2 ⟨rs', rs, hrs', h, rfl⟩, accepted_append.2 ⟨hacc', hacc⟩, ?_⟩
    intro a
    calc applyAll b (rs' ++ rs) a = applyAll b rs (applyAll b rs' a) := applyAll_append b rs' rs a
      _ = applyAll b rs ((applyAll b rs)^[n] a) := by rw [happly]
      _ = (applyAll b rs)^[n + 1] a := (Function.iterate_succ_apply' _ n a).symm

end Command

/-! ## Compiling and executing -/

namespace Runner

/-- a chain compiles exactly if its parts do, whatever the executors are -/
theorem exists_compile_chain (h : LaidOut b d a) (D D' : Description) (r r₁ r₂ : Runner b) :
    (∃ x, r.compile d (D.chain D') = .ok x) ↔
      (∃ x, r₁.compile d D = .ok x) ∧ ∃ x, r₂.compile d D' = .ok x := by
  rw [r.exists_compile h, r₁.exists_compile h, r₂.exists_compile h]
  refine ⟨?_, ?_⟩
  · intro hok
    obtain ⟨rs, hrs, hacc⟩ := hok
    obtain ⟨rs₁, rs₂, hrs₁, hrs₂, rfl⟩ := Command.resolveAll_chain.1 hrs
    obtain ⟨hacc₁, hacc₂⟩ := Command.accepted_append.1 hacc
    exact ⟨⟨rs₁, hrs₁, hacc₁⟩, rs₂, hrs₂, hacc₂⟩
  · intro hok
    obtain ⟨⟨rs₁, hrs₁, hacc₁⟩, rs₂, hrs₂, hacc₂⟩ := hok
    exact ⟨rs₁ ++ rs₂, Command.resolveAll_chain.2 ⟨rs₁, rs₂, hrs₁, hrs₂, rfl⟩,
      Command.accepted_append.2 ⟨hacc₁, hacc₂⟩⟩

/-- an execution on the buffer that another one left goes on from there -/
theorem execute_after {buf : Buffer b} {s : Store} (hlt : buf.arena.index < s.arenas.size)
    (h : LaidOut b buf.directory (s.arena buf.arena)) {r r' : Runner b} {x x' : Compiled b} {D D' : Description}
    (hx : r.compile buf.directory D = .ok x) (hx' : r'.compile buf.directory D' = .ok x') {rs rs' : List Resolved}
    (hrs : Command.resolveAll buf.directory D = .ok rs) (hrs' : Command.resolveAll buf.directory D' = .ok rs')
    (later later' : List Gpu.Executor.Use) (n m : Nat) :
    x'.execute later' buf (x.execute later buf s n).store m =
      ⟨s.put buf.arena ((Command.applyAll b rs')^[m] ((Command.applyAll b rs)^[n] (s.arena buf.arena))), .ok ()⟩ := by
  have hlaid := Command.laidOut_applyAll_iterate h (Command.typed_of_resolveAll hrs) n
  rw [execute_eq h hx hrs]
  have harena := s.arena_put_self hlt ((Command.applyAll b rs)^[n] (s.arena buf.arena))
  rw [execute_eq (by rw [harena]; exact hlaid) hx' hrs', harena, Store.put_put]

end Runner

namespace Session

variable {δ : Type} [Device δ] [LawfulDevice δ]

/-- **Composition.** On a buffer of any session, of either backend, with executors of any history that may be used in
between: a chain compiles exactly if its parts do, and executing it once leaves what executing the first part once and
then the second part once leaves. Executing a description `n + m` times leaves what executing it `n` times and then `m`
times leaves, and so does executing once the chain of its `n + m` copies, which compiles. No execution fails. -/
theorem execute_compose (actions : List (Action δ)) {i : Nat} {buf : Buffer b}
    (hbuf : (run .empty actions).buffers[i]? = some ⟨b, buf⟩) :
    (∀ (D D' : Description) (r r₁ r₂ : Runner b),
      ((∃ x, r.compile buf.directory (D.chain D') = .ok x) ↔
        (∃ x₁, r₁.compile buf.directory D = .ok x₁) ∧ ∃ x₂, r₂.compile buf.directory D' = .ok x₂) ∧
      ∀ x x₁ x₂, r.compile buf.directory (D.chain D') = .ok x → r₁.compile buf.directory D = .ok x₁ →
        r₂.compile buf.directory D' = .ok x₂ → ∀ later later₁ later₂,
          let first := x₁.execute later₁ buf (run .empty actions).store 1
          let second := x₂.execute later₂ buf first.store 1
          first.result = .ok () ∧ second.result = .ok () ∧
            x.execute later buf (run .empty actions).store 1 = second) ∧
    ∀ (D : Description) (r r' : Runner b) (n m : Nat) (x : Compiled b), r.compile buf.directory D = .ok x →
      (∃ y, r'.compile buf.directory (D.repeated (n + m)) = .ok y) ∧
      ∀ y, r'.compile buf.directory (D.repeated (n + m)) = .ok y → ∀ later later' later₁ later₂,
        let first := x.execute later₁ buf (run .empty actions).store n
        let second := x.execute later₂ buf first.store m
        first.result = .ok () ∧ second.result = .ok () ∧
          x.execute later buf (run .empty actions).store (n + m) = second ∧
          y.execute later' buf (run .empty actions).store 1 = second := by
  have hwf := (wellFormed_run wellFormed_empty actions).1
  have hlaid : LaidOut b buf.directory _ := hwf.laidOut hbuf
  have hlt : buf.arena.index < _ := hwf.lt_size hbuf
  refine ⟨?_, ?_⟩
  · intro D D' r r₁ r₂
    refine ⟨Runner.exists_compile_chain hlaid D D' r r₁ r₂, ?_⟩
    intro x x₁ x₂ hx hx₁ hx₂ later later₁ later₂
    obtain ⟨rs, hrs, -⟩ := (r.exists_compile hlaid).1 ⟨x, hx⟩
    obtain ⟨rs₁, rs₂, hrs₁, hrs₂, rfl⟩ := Command.resolveAll_chain.1 hrs
    have hsecond := Runner.execute_after hlt hlaid hx₁ hx₂ hrs₁ hrs₂ later₁ later₂ 1 1
    refine ⟨?_, ?_, ?_⟩
    · rw [Runner.execute_eq hlaid hx₁ hrs₁]
    · rw [hsecond]
    · rw [hsecond, Runner.execute_eq hlaid hx hrs]
      simp only [Function.iterate_one, Command.applyAll_append]
  · intro D r r' n m x hx
    obtain ⟨rs, hrs, hacc⟩ := (r.exists_compile hlaid).1 ⟨x, hx⟩
    obtain ⟨rs', hrs', hacc', happly⟩ := Command.resolve_repeated hrs hacc (n + m)
    refine ⟨(r'.exists_compile hlaid).2 ⟨rs', hrs', hacc'⟩, ?_⟩
    intro y hy later later' later₁ later₂
    have hsecond := Runner.execute_after hlt hlaid hx hx hrs hrs later₁ later₂ n m
    rw [← Function.iterate_add_apply, Nat.add_comm m n] at hsecond
    refine ⟨?_, ?_, ?_, ?_⟩
    · rw [Runner.execute_eq hlaid hx hrs]
    · rw [hsecond]
    · rw [hsecond, Runner.execute_eq hlaid hx hrs]
    · rw [hsecond, Runner.execute_eq hlaid hy hrs', Function.iterate_one, happly]

theorem execute_compose_sample : ∃ (buf : Buffer .gpu) (x x₁ x₂ y : Compiled .gpu),
    (run .empty sample).buffers[1]? = some ⟨.gpu, buf⟩ ∧
      (Runner.device resized).compile buf.directory ⟨["w = multiply w 2", "w = add w w"]⟩ = .ok x ∧
      x.execute [] buf (run .empty sample).store 1 =
        x₂.execute [] buf (x₁.execute [] buf (run .empty sample).store 1).store 1 ∧
      (Runner.device resized).compile buf.directory (Description.repeated ⟨["w = multiply w 2"]⟩ 5) = .ok y ∧
      y.execute [] buf (run .empty sample).store 1 =
        x₁.execute [] buf (x₁.execute [] buf (run .empty sample).store 2).store 3 := by
  have hlowers : (((run .empty sample).buffer? .gpu 1).any fun buf =>
      (Command.resolveAll buf.directory ⟨["w = multiply w 2", "w = add w w"]⟩ >>= fun rs =>
        rs.mapM Snippet.ofResolved).toOption.isSome) = true := by decide +kernel
  obtain ⟨buf, hbuf, hsnippets⟩ := (Option.any_eq_true _ _).1 hlowers
  obtain ⟨snippets, hsnippets⟩ := Option.isSome_iff_exists.1 hsnippets
  obtain ⟨rs, hrs, hs⟩ := bind_eq_ok.1 (toOption_eq_some.1 hsnippets)
  have hbuf := buffers_of_buffer? hbuf
  have hlaid := (wellFormed_run wellFormed_empty sample).1.laidOut hbuf
  let r : Runner .gpu := .device resized
  obtain ⟨x, hx⟩ := (r.exists_compile hlaid).2 ⟨rs, hrs, snippets, hs⟩
  obtain ⟨hchain, hrepeat⟩ := execute_compose sample hbuf
  obtain ⟨hiff, hsame⟩ := hchain ⟨["w = multiply w 2"]⟩ ⟨["w = add w w"]⟩ r r r
  obtain ⟨⟨x₁, hx₁⟩, x₂, hx₂⟩ := hiff.1 ⟨x, hx⟩
  obtain ⟨⟨y, hy⟩, hall⟩ := hrepeat ⟨["w = multiply w 2"]⟩ r r 2 3 x₁ hx₁
  exact ⟨buf, x, x₁, x₂, y, hbuf, hx, (hsame x x₁ x₂ hx hx₁ hx₂ [] [] []).2.2, hy,
    (hall y hy [] [] [] []).2.2.2⟩

end Session

end ArrayEngine
