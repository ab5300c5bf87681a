/-
That the signature of resolved commands is exactly the test of whether a directory suits them.

`Command.names` reads off the text of a command which names it mentions: its destination and its operands, except
numbers.
- `names_resolveAll`: the bindings of resolved commands have just these names, so that nothing a description mentions is
  left off the record, and nothing else gets there;
- `verify_congr`, `verify_error`: what a signature does not record it does not look at, and what it refuses it refuses
  as incompatible;
- `verify_iff_resolveAll`: so a signature accepts a directory exactly if the description resolves there to the very same
  commands.
-/
import ArrayEngine.Proofs.CpuRun

namespace ArrayEngine

/-! ## The names that a description mentions -/

namespace Command

/-- the texts of a command that stand for items: its destination, and every operand that is not a number -/
def names (command : String) : List String :=
  match tokenize command with
  | .ok (dest :: _ :: operands) => dest :: operands.filter fun text => (Single.readFinite text.toList).isNone
  | _ => []

end Command

/-- the names that the commands of a description mention -/
def Description.names (description : Description) : List String := description.steps.flatMap Command.names

namespace Command

variable {d : Directory} {description : Description} {rs : List Resolved}

theorem names_resolve {command : String} {r : Resolved} (h : resolve d command = .ok r) :
    r.operation.bindings.map (·.name) = names command := by
  obtain ⟨-, tokens, htokens, hden⟩ := resolve_eq_ok.1 h
  rw [names, htokens]
  generalize r.operation = op at hden ⊢
  cases hden with
  | scale _ hsrc hfactor _ _ => simp [Operation.bindings, hsrc.1, hfactor]
  | product _ hmatrix hvector _ _ _ => simp [Operation.bindings, hmatrix.1, hvector.1]
  | add _ hlhs hrhs _ _ _ => simp [Operation.bindings, hlhs.1, hrhs.1]

/-- the bindings of the commands have exactly the names that the description mentions -/
theorem names_resolveAll (h : resolveAll d description = .ok rs) :
    (rs.flatMap (·.operation.bindings)).map (·.name) = description.names := by
  rw [resolveAll, mapM_eq_ok] at h
  rw [Description.names]
  generalize description.steps = commands at h ⊢
  induction h with
  | nil => rfl
  | cons hr _ ih => rw [List.flatMap_cons, List.flatMap_cons, List.map_append, names_resolve hr, ih]

/-- a description mentions exactly the names of the bindings -/
theorem mem_names_iff (h : resolveAll d description = .ok rs) {name : String} :
    name ∈ description.names ↔ ∃ r ∈ rs, ∃ x ∈ r.operation.bindings, x.name = name := by
  simp only [← names_resolveAll h, List.mem_map, List.mem_flatMap]
  refine ⟨?_, ?_⟩
  · intro hname
    obtain ⟨x, ⟨r, hr, hx⟩, rfl⟩ := hname
    exact ⟨r, hr, x, hx, rfl⟩
  · intro hname
    obtain ⟨r, hr, x, hx, rfl⟩ := hname
    exact ⟨x, ⟨r, hr, hx⟩, rfl⟩

end Command

/-! ## What a signature looks at -/

namespace Signature

variable {s : Signature} {d d' : Directory}

/-- directories that have the same items under the recorded names get the same answer -/
theorem verify_congr (h : ∀ name item, s.entries.get? name = some item → d'.get? name = d.get? name) :
    s.verify d' = s.verify d := by
  have hentry : ∀ e ∈ s.entries.entries, verifyEntry d' e = verifyEntry d e := by
    rintro ⟨name, item⟩ he
    have hget := h name item (s.entries.get?_eq_some_of_mem he)
    simp only [verifyEntry, hget]
  exact forM_congr hentry

/-- a signature refuses a directory as incompatible, and for no other reason -/
theorem verify_error {e : EngineError} (h : s.verify d = .error e) : ∃ reason, e = .incompatibleBuffer reason := by
  obtain ⟨_, ⟨name, expected⟩, _, -, -, he⟩ := forM_eq_error.1 h
  simp only [verifyEntry] at he
  split at he
  · cases he
    exact ⟨_, rfl⟩
  · split_ifs at he
    cases he
    exact ⟨_, rfl⟩

/-- **Compatibility.** Take the signature of the commands that a description resolves to. A directory is accepted
exactly if the description resolves there to the very same commands. Nothing but the entries that the description names
matters, and a directory in which one of these is missing or another one is refused as incompatible. -/
theorem verify_iff_resolveAll {description : Description} {rs : List Resolved}
    (h : Command.resolveAll d description = .ok rs) :
    (∀ d' : Directory, (ofCommands rs).verify d' = .ok () ↔ Command.resolveAll d' description = .ok rs) ∧
    (∀ d' d'' : Directory, (∀ name ∈ description.names, d'.get? name = d''.get? name) →
      (ofCommands rs).verify d' = (ofCommands rs).verify d'') ∧
    ∀ d' : Directory, ∀ name ∈ description.names, d'.get? name ≠ d.get? name →
      ∃ reason, (ofCommands rs).verify d' = .error (.incompatibleBuffer reason) := by
  have hitems := Command.items_of_resolveAll h
  refine ⟨?_, ?_, ?_⟩
  · intro d'
    exact ⟨Command.resolveAll_of_verify h, Command.verify_resolved⟩
  · intro d' d'' hsame
    apply verify_congr
    intro name item hi
    obtain ⟨r, hr, x, hx, hname, -⟩ := exists_of_get?_ofCommands hi
    exact hsame name ((Command.mem_names_iff h).2 ⟨r, hr, x, hx, hname⟩)
  · intro d' name hname hne
    cases hv : (ofCommands rs).verify d' with
    | error e =>
      obtain ⟨reason, rfl⟩ := verify_error hv
      exact ⟨reason, rfl⟩
    | ok u =>
      obtain ⟨r, hr, x, hx, rfl⟩ := (Command.mem_names_iff h).1 hname
      have hkept := (verify_ofCommands hitems).1 hv r hr x hx
      exact absurd (hkept.trans (hitems r hr x hx).symm) hne

/-- a vector at an offset, and a matrix -/
def placed (offset : Nat) : Directory := ⟨(NameMap.empty.put "v" ⟨.vector, offset, [2]⟩).put "m" ⟨.matrix, 2, [2, 2]⟩⟩

theorem verify_iff_resolveAll_sample : ∃ rs,
    Command.resolveAll (placed 0) ⟨["v = add v v", "v = multiply v 2"]⟩ = .ok rs ∧
      Command.resolveAll ⟨NameMap.empty.put "v" ⟨.vector, 0, [2]⟩⟩ ⟨["v = add v v", "v = multiply v 2"]⟩ = .ok rs ∧
      ∃ reason, (ofCommands rs).verify (placed 6) = .error (.incompatibleBuffer reason) := by
  let description : Description := ⟨["v = add v v", "v = multiply v 2"]⟩
  have hsome : (Command.resolveAll (placed 0) description).toOption.isSome = true := by decide +kernel
  obtain ⟨rs, hrs⟩ := Option.isSome_iff_exists.1 hsome
  obtain ⟨hiff, hsame, hrefused⟩ := verify_iff_resolveAll (toOption_eq_some.1 hrs)
  have hnames : description.names = ["v", "v", "v", "v", "v"] := by decide +kernel
  refine ⟨rs, toOption_eq_some.1 hrs, (hiff _).1 ?_, hrefused _ "v" (by simp [hnames]) (by decide)⟩
  rw [hsame _ (placed 0)]
  · exact (hiff _).2 (toOption_eq_some.1 hrs)
  · rw [hnames]
    decide

end Signature

end ArrayEngine
