/-
What a device refuses to compile, and which error is reported.

Compiling resolves all commands first and lowers them afterwards; what comes of that (`Gpu.lower`) is all that can fail
on a buffer that is laid out, and then the executor is as it was (`Gpu.Executor.compile_eq_error`).
- `Operation.gathers_self_iff`: a lowered call reads what it writes only in a product into its own vector, for the
  elements of two names never overlap;
- `Session.compile_refuses_in_place`: so of commands that resolve, a device refuses these products only;
- `Session.compile_reports`: of two commands that cannot be compiled the first one is reported, unless that is such a
  product and the other one does not resolve.
-/
import ArrayEngine.Proofs.Runner

namespace ArrayEngine

open Shader (Call Snippet)

/-! ## Products in place -/

namespace Operation

/-- a product that writes into its own vector, which has elements -/
def InPlace : Operation → Prop
  | product dest _ vector => dest.name = vector.name ∧ vector.item.count ≠ 0
  | _ => False

variable {d : Directory} {a : Arena} {op : Operation}

/-- the elements of two names do not overlap, and those of one name do if there are any -/
theorem gathers_self_iff (h : LaidOut .gpu d a) (hop : op.Typed d) : op.call.gathers op.call = true ↔ op.InPlace := by
  obtain ⟨_, hop⟩ := hop
  cases hop with
  | scale => simp [call, Call.gathers, InPlace]
  | @product dest matrix vector hdest _ hvector _ hdn hvn =>
    have hoverlap : (call (.product dest matrix vector)).gathers (call (.product dest matrix vector)) = true ↔
        vector.offset < dest.offset + dest.item.count ∧ dest.offset < vector.offset + vector.item.count := by
      rw [hdn.count, hvn.count]
      exact (Bool.and_eq_true_iff).trans (and_congr decide_eq_true_iff decide_eq_true_iff)
    rw [hoverlap, InPlace]
    by_cases hname : dest.name = vector.name
    · have hitem : dest.item = vector.item := by
        have hi := hdest.2
        rw [hname, hvector.2] at hi
        exact (Option.some.inj hi).symm
      have hoffset : dest.offset = vector.offset := congrArg Item.offset hitem
      rw [hitem, hoffset]
      simp [hname, Nat.pos_iff_ne_zero]
    · have hapart : dest.offset + dest.item.count ≤ vector.offset ∨ vector.offset + vector.item.count ≤ dest.offset :=
        h.apart hname hdest.2 hvector.2
      simp only [hname, false_and, iff_false]
      omega
  | add => simp [call, Call.gathers, InPlace]

end Operation

/-- how a product in place is refused -/
def Resolved.refusal (r : Resolved) : Failure := .refused (.unsupported "multiply" (.readsItsResult r.text))

section

variable {d : Directory} {a : Arena} {r : Resolved}

theorem ofResolved_of_inPlace (h : LaidOut .gpu d a) (hop : r.operation.Typed d) (hin : r.operation.InPlace) :
    Snippet.ofResolved r = .error r.refusal := by
  have hfits := Operation.call_fits h hop
  have hself := Call.gathersFrom_eq hfits hfits h.size_lt
  have hfunction : r.operation.function.name = "multiply" := by
    cases hr : r.operation with
    | product => rfl
    | scale => exact (hr ▸ hin : Operation.InPlace (.scale _ _ _)).elim
    | add => exact (hr ▸ hin : Operation.InPlace (.add _ _ _)).elim
  rw [(Operation.gathers_self_iff h hop).2 hin] at hself
  simp only [Snippet.ofResolved, Operation.ofOperation_eq hop, Operation.workSize_eq hop, hself, hfunction,
    ok_lift_fault, ok_bind, if_true]
  rfl

/-- a resolved command is lowered unless it is a product in place -/
theorem exists_ofResolved_iff (h : LaidOut .gpu d a) (hop : r.operation.Typed d) :
    (∃ s, Snippet.ofResolved r = .ok s) ↔ ¬r.operation.InPlace := by
  rw [← Operation.gathers_self_iff h hop, Bool.not_eq_true]
  constructor
  · intro hok
    obtain ⟨s, hs⟩ := hok
    exact ((ofResolved_eq_ok h hop).1 hs).1
  · exact fun hself => ⟨_, (ofResolved_eq_ok h hop).2 ⟨hself, rfl⟩⟩

theorem ofResolved_eq_error (h : LaidOut .gpu d a) (hop : r.operation.Typed d) {f : Failure} :
    Snippet.ofResolved r = .error f ↔ r.operation.InPlace ∧ f = r.refusal := by
  by_cases hin : r.operation.InPlace
  · simp [ofResolved_of_inPlace h hop hin, hin, eq_comm]
  · obtain ⟨s, hs⟩ := (exists_ofResolved_iff h hop).2 hin
    simp [hs, hin]

end

/-! ## What compiling comes to -/

namespace Gpu

/-- the commands of a description, resolved and then lowered -/
def lower (d : Directory) (description : Description) : Except Failure (List Snippet) := do
  (← Command.resolveAll d description).mapM Snippet.ofResolved

section

variable {d : Directory} {a : Arena} {description : Description} {e e' : Executor HostDevice} {f : Failure}

theorem plan_of_lower_error (h : lower d description = .error f) : plan d description = .error f := by
  unfold lower at h
  unfold plan
  cases hrs : Command.resolveAll d description with
  | error f' =>
    rw [hrs, error_bind] at h
    cases h
    rfl
  | ok rs =>
    rw [hrs, ok_bind] at h
    rw [ok_bind, h]
    rfl

theorem lower_eq_ok {snippets : List Snippet} : lower d description = .ok snippets ↔
    ∃ rs, Command.resolveAll d description = .ok rs ∧ rs.mapM Snippet.ofResolved = .ok snippets := bind_eq_ok

/-- compiling fails where a command does not resolve or cannot be lowered, and leaves the executor as it was -/
theorem Executor.compile_eq_error (he : e.Honest) (h : LaidOut .gpu d a) :
    Executor.compile d description e = .error f e' ↔ lower d description = .error f ∧ e' = e := by
  cases hlower : lower d description with
  | error f' =>
    simp [Executor.compile, plan_of_lower_error hlower, eq_comm]
  | ok snippets =>
    obtain ⟨rs, hrs, hs⟩ := lower_eq_ok.1 hlower
    obtain ⟨c, e₁, hc⟩ := (Executor.exists_compile he h).2 ⟨rs, snippets, hrs, hs⟩
    simp [hc]

theorem Executor.exists_compile_iff (he : e.Honest) (h : LaidOut .gpu d a) :
    (∃ c e', Executor.compile d description e = .ok c e') ↔ ∃ snippets, lower d description = .ok snippets := by
  simp only [Executor.exists_compile he h, lower_eq_ok]
  exact exists_comm

/-! ## Commands that resolve -/

section

variable {rs : List Resolved}

theorem lower_of_resolveAll (hrs : Command.resolveAll d description = .ok rs) :
    lower d description = rs.mapM Snippet.ofResolved := by
  rw [lower, hrs, ok_bind]

theorem exists_lower_iff (h : LaidOut .gpu d a) (hrs : Command.resolveAll d description = .ok rs) :
    (∃ snippets, lower d description = .ok snippets) ↔ ∀ r ∈ rs, ¬r.operation.InPlace := by
  have htyped := Command.typed_of_resolveAll hrs
  rw [lower_of_resolveAll hrs, exists_mapM_eq_ok]
  exact forall₂_congr fun r hr => exists_ofResolved_iff h (htyped r hr)

theorem exists_lower_error_iff (h : LaidOut .gpu d a) (hrs : Command.resolveAll d description = .ok rs) :
    (∃ f, lower d description = .error f) ↔ ∃ r ∈ rs, r.operation.InPlace := by
  have hok := exists_lower_iff h hrs
  cases hlower : lower d description with
  | ok snippets => simpa [hlower] using hok
  | error f => simpa [hlower] using hok

/-- what is refused is the first product in place -/
theorem first_of_lower_error (h : LaidOut .gpu d a) (hrs : Command.resolveAll d description = .ok rs)
    (hf : lower d description = .error f) :
    ∃ before r after, rs = before ++ r :: after ∧ (∀ r' ∈ before, ¬r'.operation.InPlace) ∧
      r.operation.InPlace ∧ f = r.refusal := by
  have htyped := Command.typed_of_resolveAll hrs
  rw [lower_of_resolveAll hrs] at hf
  obtain ⟨before, r, after, rfl, hbefore, hr⟩ := exists_of_mapM_eq_error hf
  refine ⟨before, r, after, rfl, ?_, (ofResolved_eq_error h (htyped r (by simp))).1 hr⟩
  intro r' hr'
  exact (exists_ofResolved_iff h (htyped r' (List.mem_append_left _ hr'))).1 (hbefore r' hr')

end

/-! ## Commands on their own -/

/-- one command resolved and lowered -/
def lowerCommand (d : Directory) (command : String) : Except Failure Snippet := do
  Snippet.ofResolved (← Command.resolve d command)

variable {before after : List String} {command : String} {r : Resolved}

theorem lower_single (d : Directory) (command : String) :
    lower d ⟨[command]⟩ = (lowerCommand d command >>= fun s => .ok [s]) := by
  unfold lower lowerCommand Command.resolveAll
  rw [List.mapM_cons]
  cases Command.resolve d command with
  | error f => rfl
  | ok r =>
    simp only [ok_bind, List.mapM_nil, pure_eq, List.mapM_cons]

theorem lower_single_eq_error : lower d ⟨[command]⟩ = .error f ↔ lowerCommand d command = .error f := by
  rw [lower_single]
  cases lowerCommand d command <;> simp

theorem exists_lower_single :
    (∃ snippets, lower d ⟨[command]⟩ = .ok snippets) ↔ ∃ s, lowerCommand d command = .ok s := by
  rw [lower_single]
  cases lowerCommand d command <;> simp

theorem resolves_of_lowers (h : ∃ s, lowerCommand d command = .ok s) : ∃ r, Command.resolve d command = .ok r := by
  obtain ⟨s, hs⟩ := h
  obtain ⟨r, hr, -⟩ := bind_eq_ok.1 hs
  exact ⟨r, hr⟩

/-- a command that resolves and is not lowered is a product in place -/
theorem inPlace_of_lowerCommand (h : LaidOut .gpu d a) (hr : Command.resolve d command = .ok r)
    (hfail : lowerCommand d command = .error f) : r.operation.InPlace ∧ f = r.refusal := by
  rw [lowerCommand, hr, ok_bind] at hfail
  exact (ofResolved_eq_error h (Command.typed_of_resolve hr)).1 hfail

/-- a command that does not resolve is reported if all commands before it do -/
theorem lower_of_unresolved (hbefore : ∀ c ∈ before, ∃ r, Command.resolve d c = .ok r)
    (hfail : Command.resolve d command = .error f) (after : List String) :
    lower d ⟨before ++ command :: after⟩ = .error f := by
  unfold lower Command.resolveAll
  rw [mapM_append_cons_of_error hbefore hfail, error_bind]

/-- a command that cannot be lowered is reported if all commands before it can and all commands after it resolve -/
theorem lower_of_unlowered (hbefore : ∀ c ∈ before, ∃ s, lowerCommand d c = .ok s)
    (hafter : ∀ c ∈ after, ∃ r, Command.resolve d c = .ok r) (hr : Command.resolve d command = .ok r)
    (hfail : Snippet.ofResolved r = .error f) : lower d ⟨before ++ command :: after⟩ = .error f := by
  obtain ⟨rs, hrs⟩ := exists_mapM_eq_ok.2 fun c hc => resolves_of_lowers (hbefore c hc)
  obtain ⟨rs', hrs'⟩ := exists_mapM_eq_ok.2 hafter
  have hall : Command.resolveAll d ⟨before ++ command :: after⟩ = .ok (rs ++ r :: rs') :=
    mapM_append_eq_ok.2 ⟨rs, r :: rs', hrs, mapM_cons_eq_ok.2 ⟨r, rs', hr, hrs', rfl⟩, rfl⟩
  rw [lower_of_resolveAll hall]
  refine mapM_append_cons_of_error ?_ hfail rs'
  intro r' hr'
  obtain ⟨c, hc, hcr⟩ := exists_of_mem_mapM hrs hr'
  obtain ⟨s, hs⟩ := hbefore c hc
  rw [lowerCommand, hcr, ok_bind] at hs
  exact ⟨s, hs⟩

/-- the first command that fails on its own is reported, if it does not resolve or all commands after it do -/
theorem lower_of_first (hbefore : ∀ c ∈ before, ∃ s, lowerCommand d c = .ok s)
    (hfail : lowerCommand d command = .error f)
    (hafter : (∃ r, Command.resolve d command = .ok r) → ∀ c ∈ after, ∃ r, Command.resolve d c = .ok r) :
    lower d ⟨before ++ command :: after⟩ = .error f := by
  unfold lowerCommand at hfail
  cases hr : Command.resolve d command with
  | error f' =>
    rw [hr, error_bind] at hfail
    cases hfail
    exact lower_of_unresolved (fun c hc => resolves_of_lowers (hbefore c hc)) hr after
  | ok r =>
    rw [hr, ok_bind] at hfail
    exact lower_of_unlowered hbefore (hafter ⟨r, hr⟩) hr hfail

/-- a command that does not resolve is reported, also if one before it is a product in place -/
theorem lower_of_later {between : List String} {late : String}
    (hbefore : ∀ c ∈ before, ∃ r, Command.resolve d c = .ok r) (hr : Command.resolve d command = .ok r)
    (hbetween : ∀ c ∈ between, ∃ r, Command.resolve d c = .ok r) (hlate : Command.resolve d late = .error f)
    (rest : List String) : lower d ⟨before ++ command :: (between ++ late :: rest)⟩ = .error f := by
  rw [show before ++ command :: (between ++ late :: rest) = (before ++ command :: between) ++ late :: rest by simp]
  refine lower_of_unresolved ?_ hlate rest
  intro c hc
  rcases List.mem_append.1 hc with hc | hc
  · exact hbefore c hc
  · rcases List.mem_cons.1 hc with rfl | hc
    · exact ⟨r, hr⟩
    · exact hbetween c hc

end

end Gpu

/-! ## Sessions -/

namespace Session

variable {δ : Type} [Device δ] [LawfulDevice δ]

open Gpu in
/-- **A device refuses products in place, and nothing else.** On a buffer of any session, commands that resolve are
compiled by an executor of any history unless one of them is a product into its own vector, and then the first of these
is refused. Whenever compiling fails, for whatever reason, the executor with its kept shaders and its device is as it
was. The buffer gives its directory only. -/
theorem compile_refuses_in_place (actions : List (Action δ)) {i : Nat} {buf : Buffer .gpu}
    (hx : (run .empty actions).buffers[i]? = some ⟨.gpu, buf⟩) (history : History) (description : Description) :
    (∀ rs, Command.resolveAll buf.directory description = .ok rs →
      ((∃ f e, Executor.compile buf.directory description history.executor = .error f e) ↔
        ∃ r ∈ rs, r.operation.InPlace) ∧
      ((¬∃ r ∈ rs, r.operation.InPlace) →
        ∃ c e, Executor.compile buf.directory description history.executor = .ok c e) ∧
      ∀ f e, Executor.compile buf.directory description history.executor = .error f e →
        ∃ before r after, rs = before ++ r :: after ∧ (∀ r' ∈ before, ¬r'.operation.InPlace) ∧
          r.operation.InPlace ∧ f = r.refusal) ∧
    ∀ f e, Executor.compile buf.directory description history.executor = .error f e → e = history.executor := by
  have hlaid : LaidOut .gpu buf.directory _ := (wellFormed_run wellFormed_empty actions).1.laidOut hx
  have herror {f : Failure} {e : Executor HostDevice} :
      Executor.compile buf.directory description history.executor = .error f e ↔
        lower buf.directory description = .error f ∧ e = history.executor :=
    Executor.compile_eq_error history.honest hlaid
  refine ⟨?_, fun f e hfail => (herror.1 hfail).2⟩
  intro rs hrs
  refine ⟨?_, ?_, ?_⟩
  · simp only [herror, exists_and_left, exists_eq, and_true]
    exact exists_lower_error_iff hlaid hrs
  · intro hnone
    refine (Executor.exists_compile_iff history.honest hlaid).2 ((exists_lower_iff hlaid hrs).2 ?_)
    exact fun r hr hin => hnone ⟨r, hr, hin⟩
  · exact fun f e hfail => first_of_lower_error hlaid hrs (herror.1 hfail).1

/-- a device buffer with a vector and a square matrix -/
def square : List (Action HostDevice) :=
  [.create .gpu, .own (.vector 2) [⟨0x3f800000⟩, ⟨0x40000000⟩], .insert 0 "v" 0,
    .own (.matrix 2 2) [.zero, ⟨0x3f800000⟩, ⟨0x3f800000⟩, .zero], .insert 0 "m" 1]

/-- the buffer of the square, with some commands and what they are lowered to -/
theorem exists_square : ∃ buf : Buffer .gpu, (run .empty square).buffers[0]? = some ⟨.gpu, buf⟩ ∧
    Gpu.lower buf.directory ⟨["v = multiply m v"]⟩ =
      .error (.refused (.unsupported "multiply" (.readsItsResult "v = multiply m v"))) ∧
    Gpu.lower buf.directory ⟨["v = multiply m v", "v = add v w"]⟩ = .error (.refused (.unknownBinding "w")) ∧
    (∃ rs, Command.resolveAll buf.directory ⟨["v = multiply m v"]⟩ = .ok rs) ∧
    ∃ ss, Gpu.lower buf.directory ⟨["v = add v v"]⟩ = .ok ss := by
  have hsquare : ((run .empty square).buffer? .gpu 0).any (fun buf =>
      Gpu.lower buf.directory ⟨["v = multiply m v"]⟩ =
        .error (.refused (.unsupported "multiply" (.readsItsResult "v = multiply m v"))) &&
      Gpu.lower buf.directory ⟨["v = multiply m v", "v = add v w"]⟩ = .error (.refused (.unknownBinding "w")) &&
      (Command.resolveAll buf.directory ⟨["v = multiply m v"]⟩).toOption.isSome &&
      (Gpu.lower buf.directory ⟨["v = add v v"]⟩).toOption.isSome) = true := by decide +kernel
  obtain ⟨buf, hbuf, hsquare⟩ := (Option.any_eq_true _ _).1 hsquare
  simp only [Bool.and_eq_true, decide_eq_true_eq, Option.isSome_iff_exists, toOption_eq_some, and_assoc] at hsquare
  exact ⟨buf, buffers_of_buffer? hbuf, hsquare⟩

open Gpu in
theorem compile_refuses_in_place_square : ∃ buf : Buffer .gpu, (run .empty square).buffers[0]? = some ⟨.gpu, buf⟩ ∧
    Executor.compile buf.directory ⟨["v = multiply m v"]⟩ resized.executor =
      .error (.refused (.unsupported "multiply" (.readsItsResult "v = multiply m v"))) resized.executor ∧
    ∃ rs r, Command.resolveAll buf.directory ⟨["v = multiply m v"]⟩ = .ok rs ∧ r ∈ rs ∧ r.operation.InPlace := by
  obtain ⟨buf, hx, hin, -, ⟨rs, hrs⟩, -⟩ := exists_square
  obtain ⟨hrefuses, -⟩ := compile_refuses_in_place square hx resized ⟨["v = multiply m v"]⟩
  have hlaid : LaidOut .gpu buf.directory _ := (wellFormed_run wellFormed_empty square).1.laidOut hx
  have hfail := (Executor.compile_eq_error resized.honest hlaid).2 ⟨hin, rfl⟩
  obtain ⟨r, hr, hplace⟩ := (hrefuses rs hrs).1.1 ⟨_, _, hfail⟩
  exact ⟨buf, hx, hfail, rs, r, hrs, hr, hplace⟩

open Gpu in
/-- **Which error is reported.** On a buffer of any session, take the first command of a description that an executor of
any history does not compile on its own. Its error is that of the whole description, if the command does not resolve or
all commands after it do. Otherwise the command is a product in place, and the description fails with the error of the
first command after it that does not resolve. -/
theorem compile_reports (actions : List (Action δ)) {i : Nat} {buf : Buffer .gpu}
    (hx : (run .empty actions).buffers[i]? = some ⟨.gpu, buf⟩) (history : History) {before after : List String}
    {command : String}
    (hbefore : ∀ c ∈ before, ∃ x e, Executor.compile buf.directory ⟨[c]⟩ history.executor = .ok x e) {f : Failure}
    {e : Executor HostDevice}
    (hfail : Executor.compile buf.directory ⟨[command]⟩ history.executor = .error f e) :
    (((∃ r, Command.resolve buf.directory command = .ok r) →
        ∀ c ∈ after, ∃ r, Command.resolve buf.directory c = .ok r) →
      Executor.compile buf.directory ⟨before ++ command :: after⟩ history.executor = .error f history.executor) ∧
    ∀ r between late rest g, Command.resolve buf.directory command = .ok r → after = between ++ late :: rest →
      (∀ c ∈ between, ∃ r, Command.resolve buf.directory c = .ok r) →
      Command.resolve buf.directory late = .error g →
      r.operation.InPlace ∧ f = r.refusal ∧
        Executor.compile buf.directory ⟨[late]⟩ history.executor = .error g history.executor ∧
        Executor.compile buf.directory ⟨before ++ command :: after⟩ history.executor = .error g history.executor := by
  have hlaid : LaidOut .gpu buf.directory _ := (wellFormed_run wellFormed_empty actions).1.laidOut hx
  have herror {description : Description} {f : Failure} {e : Executor HostDevice} :
      Executor.compile buf.directory description history.executor = .error f e ↔
        lower buf.directory description = .error f ∧ e = history.executor :=
    Executor.compile_eq_error history.honest hlaid
  have hlowered : ∀ c ∈ before, ∃ s, lowerCommand buf.directory c = .ok s := fun c hc =>
    exists_lower_single.1 ((Executor.exists_compile_iff history.honest hlaid).1 (hbefore c hc))
  have halone : lowerCommand buf.directory command = .error f := lower_single_eq_error.1 (herror.1 hfail).1
  refine ⟨fun hlater => herror.2 ⟨lower_of_first hlowered halone hlater, rfl⟩, ?_⟩
  intro r between late rest g hr hafter hbetween hlate
  subst hafter
  obtain ⟨hin, hf⟩ := inPlace_of_lowerCommand hlaid hr halone
  have hlateAlone : lowerCommand buf.directory late = .error g := by rw [lowerCommand, hlate, error_bind]
  have hall := lower_of_later (fun c hc => resolves_of_lowers (hlowered c hc)) hr hbetween hlate rest
  exact ⟨hin, hf, herror.2 ⟨lower_single_eq_error.2 hlateAlone, rfl⟩, herror.2 ⟨hall, rfl⟩⟩

open Gpu in
theorem compile_reports_square : ∃ buf : Buffer .gpu, (run .empty square).buffers[0]? = some ⟨.gpu, buf⟩ ∧
    Executor.compile buf.directory ⟨["v = add v v", "v = multiply m v"]⟩ resized.executor =
      .error (.refused (.unsupported "multiply" (.readsItsResult "v = multiply m v"))) resized.executor := by
  obtain ⟨buf, hx, hin, -, -, hadd⟩ := exists_square
  have hlaid : LaidOut .gpu buf.directory _ := (wellFormed_run wellFormed_empty square).1.laidOut hx
  have hbefore : ∀ c ∈ ["v = add v v"], ∃ x e, Executor.compile buf.directory ⟨[c]⟩ resized.executor = .ok x e := by
    intro c hc
    obtain rfl := List.mem_singleton.1 hc
    exact (Executor.exists_compile_iff resized.honest hlaid).2 hadd
  have hfail := (Executor.compile_eq_error resized.honest hlaid).2 ⟨hin, rfl⟩
  obtain ⟨hreports, -⟩ := compile_reports square hx resized hbefore hfail
  exact ⟨buf, hx, hreports fun _ => nofun⟩

open Gpu in
/-- a product in place is not reported where a later command does not resolve -/
theorem compile_reports_later : ∃ buf : Buffer .gpu, (run .empty square).buffers[0]? = some ⟨.gpu, buf⟩ ∧
    Executor.compile buf.directory ⟨["v = multiply m v"]⟩ resized.executor =
      .error (.refused (.unsupported "multiply" (.readsItsResult "v = multiply m v"))) resized.executor ∧
    Executor.compile buf.directory ⟨["v = multiply m v", "v = add v w"]⟩ resized.executor =
      .error (.refused (.unknownBinding "w")) resized.executor := by
  obtain ⟨buf, hx, hin, hlate, -⟩ := exists_square
  have hlaid : LaidOut .gpu buf.directory _ := (wellFormed_run wellFormed_empty square).1.laidOut hx
  exact ⟨buf, hx, (Executor.compile_eq_error resized.honest hlaid).2 ⟨hin, rfl⟩,
    (Executor.compile_eq_error resized.honest hlaid).2 ⟨hlate, rfl⟩⟩

end Session

end ArrayEngine
