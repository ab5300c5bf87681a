/-
What an execution leaves alone.

An element of an item is a word that the item holds (`Item.Holds`). An operation changes no other words than the elements
of its destination:
- `DeviceMemory.getElem?_sweep_of_apart`: on a device an invocation writes inside the ranges of its calls, so a dispatch
  does, however many invocations it has;
- `Operation.frame_applied` is the step, `Command.frame_applyAll` the run over a list of commands, and
  `Command.frame_applyAll_iterate` that over any number of iterations;
- `Session.execute_frame`: so an execution keeps every other word, although on a device all words go to the device and
  come back.
-/
import ArrayEngine.Proofs.Rejection

namespace ArrayEngine

open Shader (Call)

/-! ## One operation -/

/-- whether a word is an element of an item -/
def Item.Holds (b : Backend) (item : Item) (j : Nat) : Prop := item.bodyWord b ≤ j ∧ j < item.endWord b

namespace DeviceMemory

variable {calls : List Call} {gid j : Nat}

theorem getElem?_effect_of_ne {c : Call} (hj : ¬(gid < c.size ∧ j = c.dest + gid)) (m : DeviceMemory) :
    (c.effect gid m)[j]? = m[j]? := by
  rcases Nat.lt_or_ge gid c.size with hlt | hge
  · rw [Call.effect_of_lt hlt, Array.getElem?_setIfInBounds_ne fun heq => hj ⟨hlt, heq.symm⟩]
  · rw [Call.effect_of_le hge]

/-- an invocation changes no element of a range but the one with its own index -/
theorem getElem?_effects_of_ne (hj : ∀ c ∈ calls, ¬(gid < c.size ∧ j = c.dest + gid)) (m : DeviceMemory) :
    (effects calls gid m)[j]? = m[j]? := by
  induction calls generalizing m with
  | nil => rfl
  | cons c calls ih =>
    obtain ⟨hc, hcalls⟩ := List.forall_mem_cons.1 hj
    exact (ih hcalls _).trans (getElem?_effect_of_ne hc m)

/-- the invocations of calls write inside their ranges, also if there are more of them than elements -/
theorem getElem?_sweep_of_apart (hj : ∀ c ∈ calls, ¬(c.dest ≤ j ∧ j < c.dest + c.size)) (n : Nat)
    (m : DeviceMemory) : (sweep calls n m)[j]? = m[j]? := by
  induction n with
  | zero => rfl
  | succ n ih =>
    rw [sweep_succ]
    refine (getElem?_effects_of_ne ?_ _).trans ih
    intro c hc ⟨hlt, heq⟩
    exact hj c hc (by omega)

end DeviceMemory

section

variable {b : Backend} {d : Directory} {a : Arena} {j : Nat}

/-- an operation changes elements of its destination only -/
theorem Operation.frame_applied {op : Operation} (h : LaidOut b d a) (hop : op.Typed d)
    (hj : ¬op.dest.item.Holds b j) : (op.applied b a).words[j]? = a.words[j]? := by
  cases b with
  | cpu =>
    have hlen : ((op.results (Binding.held .cpu a)).map Single.bits).length = op.dest.item.count := by
      rw [List.length_map, length_results h hop]
    have hin : op.dest.item.bodyWord .cpu + ((op.results (Binding.held .cpu a)).map Single.bits).length ≤ a.size := by
      rw [hlen]
      exact (h.stored hop.dest_recorded.2).inside
    rw [applied, after, Arena.put, Arena.getElem?_overwrite _ _ _ hin, hlen]
    exact if_neg hj
  | gpu =>
    have hcall : ¬(op.call.dest ≤ j ∧ j < op.call.dest + op.call.size) := by
      rw [dest_call, size_call hop]
      exact hj
    calc (op.applied .gpu a).words[j]? = (a.memory.sweep [op.call] op.call.size)[j]?.map Single.bits :=
          Array.getElem?_map
      _ = a.memory[j]?.map Single.bits := by
          rw [DeviceMemory.getElem?_sweep_of_apart (List.forall_mem_singleton.2 hcall)]
      _ = (Arena.ofMemory a.memory).words[j]? := Array.getElem?_map.symm
      _ = a.words[j]? := by rw [Arena.ofMemory_memory]

/-! ## Runs of commands -/

namespace Command

variable {rs : List Resolved}

theorem frame_applyAll (h : LaidOut b d a) (ht : ∀ r ∈ rs, r.operation.Typed d)
    (hj : ∀ r ∈ rs, ¬r.operation.dest.item.Holds b j) : (applyAll b rs a).words[j]? = a.words[j]? := by
  induction rs generalizing a with
  | nil => rfl
  | cons r rs ih =>
    obtain ⟨hr, hrs⟩ := List.forall_mem_cons.1 ht
    obtain ⟨hjr, hjrs⟩ := List.forall_mem_cons.1 hj
    exact (ih (Operation.laidOut_applied h hr) hrs hjrs).trans (Operation.frame_applied h hr hjr)

theorem frame_applyAll_iterate (h : LaidOut b d a) (ht : ∀ r ∈ rs, r.operation.Typed d)
    (hj : ∀ r ∈ rs, ¬r.operation.dest.item.Holds b j) (n : Nat) :
    ((applyAll b rs)^[n] a).words[j]? = a.words[j]? := by
  induction n generalizing a with
  | zero => rfl
  | succ n ih =>
    rw [Function.iterate_succ_apply, ih (laidOut_applyAll h ht), frame_applyAll h ht hj]

end Command

end

/-! ## Executions -/

/-- whether a word is an element of the destination of a command -/
def Description.Writes (b : Backend) (d : Directory) (description : Description) (j : Nat) : Prop :=
  ∃ command ∈ description.steps, ∃ r, Command.resolve d command = .ok r ∧ r.operation.dest.item.Holds b j

/-- a store that differs from another one in some words of one arena only -/
structure Store.SameBut (s s' : Store) (id : ArenaId) (changed : Nat → Prop) : Prop where
  size : (s'.arena id).size = (s.arena id).size
  words : ∀ j, ¬changed j → (s'.arena id).words[j]? = (s.arena id).words[j]?
  others : ∀ other, other ≠ id → s'.arena other = s.arena other

/-- what the views of a buffer are depends on its directory only, as long as it is laid out -/
theorem Buffer.view_congr {b : Backend} {buf : Buffer b} {s s' : Store}
    (h : LaidOut b buf.directory (s.arena buf.arena)) (h' : LaidOut b buf.directory (s'.arena buf.arena))
    (name : String) (kind : Kind) : buf.view s' name kind = buf.view s name kind := by
  cases hi : buf.directory.get? name with
  | none =>
    simp only [view, Directory.getKind, Directory.get, hi, error_bind]
    rfl
  | some item =>
    by_cases hk : kind = item.kind
    · subst hk
      obtain ⟨shape, hshape, -, -⟩ := (h.stored hi).exists_shape
      rw [view_of_stored hi (h.stored hi) hshape, view_of_stored hi (h'.stored hi) hshape]
    · rw [view_of_kind_ne hi hk, view_of_kind_ne hi hk]

/-- an execution on a buffer that is laid out -/
theorem Runner.frame_execute {b : Backend} {r : Runner b} {x : Compiled b} {buf : Buffer b} {s : Store}
    {description : Description} (h : LaidOut b buf.directory (s.arena buf.arena))
    (hlt : buf.arena.index < s.arenas.size) (hok : r.compile buf.directory description = .ok x)
    (later : List Gpu.Executor.Use) (n : Nat) :
    s.SameBut (x.execute later buf s n).store buf.arena (description.Writes b buf.directory) ∧
      LaidOut b buf.directory ((x.execute later buf s n).store.arena buf.arena) ∧
      (x.execute later buf s 0).store = s := by
  obtain ⟨rs, hrs, -⟩ := (r.exists_compile h).1 ⟨x, hok⟩
  have htyped := Command.typed_of_resolveAll hrs
  have hself := Store.arena_put_self hlt ((Command.applyAll b rs)^[n] (s.arena buf.arena))
  rw [execute_eq h hok hrs, execute_eq h hok hrs]
  refine ⟨⟨?_, ?_, ?_⟩, ?_, ?_⟩
  · rw [hself, Command.size_applyAll_iterate]
  · intro j hj
    rw [hself]
    refine Command.frame_applyAll_iterate h htyped ?_ n
    intro r' hr' hholds
    obtain ⟨command, hcommand, hresolve⟩ := exists_of_mem_mapM hrs hr'
    exact hj ⟨command, hcommand, r', hresolve, hholds⟩
  · intro other hother
    exact Store.arena_put_of_ne hother _
  · rw [hself]
    exact Command.laidOut_applyAll_iterate h htyped n
  · exact s.put_arena_self buf.arena

namespace Session

variable {δ : Type} [Device δ] [LawfulDevice δ] {b : Backend}

/-- **What an execution leaves alone.** Take a description that compiled on the host or on an executor of any history,
and a buffer of any session whose directory the layout accepts. However often it is executed there, and whatever was done
with the executor in between, the arena of the buffer keeps its size and every word that is no element of the destination
of a command, and all other arenas stay as they are. Every name of the directory is viewed as before. No iterations
change nothing at all. -/
theorem execute_frame (actions : List (Action δ)) {i : Nat} {buf : Buffer b}
    (hx : (run .empty actions).buffers[i]? = some ⟨b, buf⟩) {r : Runner b} {d : Directory} {description : Description}
    {x : Compiled b} (hc : r.compile d description = .ok x) (hv : x.layout.verify buf.directory = .ok ())
    (later : List Gpu.Executor.Use) (n : Nat) :
    (run .empty actions).store.SameBut (x.execute later buf (run .empty actions).store n).store buf.arena
      (description.Writes b buf.directory) ∧
    (∀ name kind, buf.view (x.execute later buf (run .empty actions).store n).store name kind =
      buf.view (run .empty actions).store name kind) ∧
    (x.execute later buf (run .empty actions).store 0).store = (run .empty actions).store := by
  have hwf := (wellFormed_run wellFormed_empty actions).1
  obtain ⟨hsame, hlaid, hzero⟩ :=
    Runner.frame_execute (hwf.laidOut hx) (hwf.lt_size hx) (Runner.compile_of_verify hc hv) later n
  exact ⟨hsame, Buffer.view_congr (hwf.laidOut hx) hlaid, hzero⟩

/-- a vector scaled on a device; the matrix behind it starts at word 2 -/
theorem execute_frame_square : ∃ (buf : Buffer .gpu) (x : Compiled .gpu),
    (run .empty square).buffers[0]? = some ⟨.gpu, buf⟩ ∧
    (Runner.device resized).compile buf.directory ⟨["v = multiply v 2"]⟩ = .ok x ∧
    ∀ j, 2 ≤ j → ((x.execute [.submit []] buf (run .empty square).store 3).store.arena buf.arena).words[j]? =
      ((run .empty square).store.arena buf.arena).words[j]? := by
  have hscales : ((run .empty square).buffer? .gpu 0).any (fun buf =>
      (Gpu.lower buf.directory ⟨["v = multiply v 2"]⟩).toOption.isSome &&
      (Command.resolve buf.directory "v = multiply v 2").toOption.map (·.operation.dest.item) =
        some ⟨.vector, 0, [2]⟩) = true := by decide +kernel
  obtain ⟨buf, hbuf, hscales⟩ := (Option.any_eq_true _ _).1 hscales
  obtain ⟨hlower, hdest⟩ := Bool.and_eq_true_iff.1 hscales
  obtain ⟨snippets, hsnippets⟩ := Option.isSome_iff_exists.1 hlower
  obtain ⟨rs, hrs, hs⟩ := Gpu.lower_eq_ok.1 (toOption_eq_some.1 hsnippets)
  have hx := buffers_of_buffer? hbuf
  have hlaid := (wellFormed_run wellFormed_empty square).1.laidOut hx
  obtain ⟨x, hc⟩ := ((Runner.device resized).exists_compile hlaid).2 ⟨rs, hrs, snippets, hs⟩
  obtain ⟨hsame, -⟩ := execute_frame square hx hc (Runner.verify_self hc) [.submit []] 3
  refine ⟨buf, x, hx, hc, fun j hj => hsame.words j ?_⟩
  intro hwrites
  obtain ⟨command, hcommand, r, hr, hholds⟩ := hwrites
  obtain rfl := List.mem_singleton.1 hcommand
  have hitem := of_decide_eq_true hdest
  rw [hr] at hitem
  rw [show r.operation.dest.item = ⟨.vector, 0, [2]⟩ from Option.some.inj hitem] at hholds
  have hlt : j < 2 := hholds.2
  omega

end Session

end ArrayEngine
