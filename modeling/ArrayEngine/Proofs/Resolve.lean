/-
What the resolver accepts, and what a signature checks.

`Denotes` is the meaning of the tokens of a command as a relation: one rule for each operation, with the kinds and sizes
that have to go together. `resolve_eq_ok` says that the resolver answers an operation exactly if the rules give it.

`verify_ofCommands` says what the signature of resolved commands checks: that every name they mention has the item that
they were resolved with.
-/
import ArrayEngine.Command.Resolve
import ArrayEngine.Proofs.Layout

namespace ArrayEngine

/-! ## The rules -/

namespace Binding

/-- a name that is no literal, with its item -/
def Recorded (d : Directory) (x : Binding) : Prop :=
  Single.readFinite x.name.toList = none ∧ d.get? x.name = some x.item

/-- a vector of `n` elements -/
def IsVector (x : Binding) (n : Nat) : Prop := x.kind = .vector ∧ x.length = .ok n

end Binding

namespace Command

/-- what the tokens of a command mean, by the items of a directory -/
inductive Denotes (d : Directory) : List String → Operation → Prop
  | scale {dest src : Binding} {text : String} {factor : Single} {n : Nat} (hdest : dest.Recorded d)
      (hsrc : src.Recorded d) (hfactor : Single.readFinite text.toList = some factor) (hdn : dest.IsVector n)
      (hsn : src.IsVector n) : Denotes d [dest.name, "multiply", src.name, text] (.scale dest src factor)
  | product {dest matrix vector : Binding} (hdest : dest.Recorded d) (hmatrix : matrix.Recorded d)
      (hvector : vector.Recorded d) (hmk : matrix.kind = .matrix) (hdn : dest.IsVector matrix.item.rows)
      (hvn : vector.IsVector matrix.item.cols) :
      Denotes d [dest.name, "multiply", matrix.name, vector.name] (.product dest matrix vector)
  | add {dest lhs rhs : Binding} {n : Nat} (hdest : dest.Recorded d) (hlhs : lhs.Recorded d) (hrhs : rhs.Recorded d)
      (hdn : dest.IsVector n) (hln : lhs.IsVector n) (hrn : rhs.IsVector n) :
      Denotes d [dest.name, "add", lhs.name, rhs.name] (.add dest lhs rhs)

variable {d d' : Directory} {tokens : List String} {op : Operation}

theorem Denotes.recorded (h : Denotes d tokens op) {x : Binding} (hx : x ∈ op.bindings) : x.Recorded d := by
  cases h <;> simp only [Operation.bindings, List.mem_cons, List.not_mem_nil, or_false] at hx
  · rcases hx with rfl | rfl <;> assumption
  · rcases hx with rfl | rfl | rfl <;> assumption
  · rcases hx with rfl | rfl | rfl <;> assumption

/-- the rules look at the items of the operation only -/
theorem Denotes.of_items (h : Denotes d tokens op) (hd : ∀ x ∈ op.bindings, d'.get? x.name = some x.item) :
    Denotes d' tokens op := by
  have hrec {x : Binding} (hx : x ∈ op.bindings) : x.Recorded d' := ⟨(h.recorded hx).1, hd x hx⟩
  cases h with
  | scale _ _ hfactor hdn hsn =>
    exact .scale (hrec (by simp [Operation.bindings])) (hrec (by simp [Operation.bindings])) hfactor hdn hsn
  | product _ _ _ hmk hdn hvn =>
    exact .product (hrec (by simp [Operation.bindings])) (hrec (by simp [Operation.bindings]))
      (hrec (by simp [Operation.bindings])) hmk hdn hvn
  | add _ _ _ hdn hln hrn =>
    exact .add (hrec (by simp [Operation.bindings])) (hrec (by simp [Operation.bindings]))
      (hrec (by simp [Operation.bindings])) hdn hln hrn

/-! ## The resolver follows the rules -/

namespace Token

theorem parse_literal_eq_ok {d : Directory} {text : String} {value : Single} :
    parse d text = .ok (.literal value) ↔ Single.readFinite text.toList = some value := by
  unfold parse
  cases Single.readFinite text.toList with
  | none => simp only [bind_eq_ok, pure_eq_ok, reduceCtorEq, and_false, exists_false]
  | some v => simp

theorem parse_binding_eq_ok {d : Directory} {text : String} {x : Binding} :
    parse d text = .ok (.binding x) ↔ x.name = text ∧ x.Recorded d := by
  obtain ⟨name, item⟩ := x
  unfold parse Binding.Recorded
  cases h : Single.readFinite text.toList with
  | none =>
    simp only [bind_eq_ok, Directory.get_eq_ok, pure_eq_ok, Token.binding.injEq, Binding.mk.injEq]
    refine ⟨?_, ?_⟩
    · intro hok
      obtain ⟨_, hget, rfl, rfl⟩ := hok
      exact ⟨rfl, h, hget⟩
    · intro hspec
      obtain ⟨rfl, -, hget⟩ := hspec
      exact ⟨item, hget, rfl, rfl⟩
  | some v =>
    simp only [Except.ok.injEq, reduceCtorEq, false_iff]
    intro hr
    obtain ⟨rfl, hn, -⟩ := hr
    exact absurd (h.symm.trans hn) (by simp)

end Token

theorem resolveDest_eq_ok {d : Directory} {text : String} {x : Binding} :
    resolveDest d text = .ok x ↔ x.name = text ∧ x.Recorded d := by
  rw [← Token.parse_binding_eq_ok, resolveDest, bind_eq_ok]
  refine ⟨?_, ?_⟩
  · intro hok
    obtain ⟨tok, htok, h⟩ := hok
    cases tok with
    | literal v => simp at h
    | binding y =>
      obtain rfl : y = x := by simpa using h
      exact htok
  · exact fun h => ⟨_, h, rfl⟩

theorem resolveMultiply_eq_ok {dest : Binding} {operands : List Token} {op : Operation} {n : Nat} :
    resolveMultiply dest operands = .ok (op, n) ↔
      (∃ src factor, operands = [.binding src, .literal factor] ∧ src.IsVector n ∧ op = .scale dest src factor) ∨
      (∃ matrix vector, operands = [.binding matrix, .binding vector] ∧ matrix.kind = .matrix ∧
        vector.IsVector matrix.item.cols ∧ op = .product dest matrix vector ∧ n = matrix.item.rows) := by
  unfold resolveMultiply noSignature
  split
  · next src factor =>
    split_ifs with hk
    · simp only [bind_eq_ok, lift_fault_eq_ok, pure_eq_ok, Prod.mk.injEq]
      refine ⟨?_, ?_⟩
      · intro hok
        obtain ⟨k, hk', rfl, rfl⟩ := hok
        exact .inl ⟨src, factor, rfl, ⟨hk, hk'⟩, rfl⟩
      · intro hspec
        rcases hspec with ⟨_, _, h, hv, rfl⟩ | ⟨_, _, h, -⟩
        · cases h
          exact ⟨n, hv.2, rfl, rfl⟩
        · cases h
    · simp only [false_iff, not_or]
      refine ⟨?_, ?_⟩
      · intro hok
        obtain ⟨_, _, h, hv, -⟩ := hok
        cases h
        exact hk hv.1
      · intro hspec
        obtain ⟨_, _, h, -⟩ := hspec
        cases h
  · next matrix vector =>
    split_ifs with hk
    · simp only [bind_eq_ok, lift_fault_eq_ok, ite_pure_eq_ok, Prod.mk.injEq]
      refine ⟨?_, ?_⟩
      · intro hok
        obtain ⟨k, hk', rfl, rfl, rfl⟩ := hok
        exact .inr ⟨matrix, vector, rfl, hk.1, ⟨hk.2, hk'⟩, rfl, rfl⟩
      · intro hspec
        rcases hspec with ⟨_, _, h, -⟩ | ⟨_, _, h, -, hv, rfl, rfl⟩
        · cases h
        · cases h
          exact ⟨_, hv.2, rfl, rfl, rfl⟩
    · simp only [false_iff, not_or]
      refine ⟨?_, ?_⟩
      · intro hok
        obtain ⟨_, _, h, -⟩ := hok
        cases h
      · intro hspec
        obtain ⟨_, _, h, hm, hv, -⟩ := hspec
        cases h
        exact hk ⟨hm, hv.1⟩
  · next h1 h2 =>
    simp only [reduceCtorEq, false_iff, not_or]
    refine ⟨?_, ?_⟩
    · intro hspec
      obtain ⟨_, _, h, -⟩ := hspec
      exact h1 _ _ h
    · intro hspec
      obtain ⟨_, _, h, -⟩ := hspec
      exact h2 _ _ h

theorem resolveAdd_eq_ok {dest : Binding} {operands : List Token} {op : Operation} {n : Nat} :
    resolveAdd dest operands = .ok (op, n) ↔
      ∃ lhs rhs, operands = [.binding lhs, .binding rhs] ∧ lhs.IsVector n ∧ rhs.IsVector n ∧
        op = .add dest lhs rhs := by
  unfold resolveAdd noSignature
  split
  · next lhs rhs =>
    split_ifs with hk
    · simp only [bind_eq_ok, lift_fault_eq_ok, ite_pure_eq_ok, Prod.mk.injEq]
      refine ⟨?_, ?_⟩
      · intro hok
        obtain ⟨k, hl, _, hr, rfl, rfl, rfl⟩ := hok
        exact ⟨lhs, rhs, rfl, ⟨hk.1, hl⟩, ⟨hk.2, hr⟩, rfl⟩
      · intro hspec
        obtain ⟨_, _, h, hl, hr, rfl⟩ := hspec
        cases h
        exact ⟨_, hl.2, _, hr.2, rfl, rfl, rfl⟩
    · simp only [false_iff]
      intro hr
      obtain ⟨_, _, h, hl, hr, -⟩ := hr
      cases h
      exact hk ⟨hl.1, hr.1⟩
  · next h =>
    simp only [reduceCtorEq, false_iff]
    intro hspec
    obtain ⟨_, _, h', -⟩ := hspec
    exact h _ _ h'

theorem checkDest_eq_ok {f : FunctionName} {dest : Binding} {n : Nat} {u : Unit} :
    checkDest f dest n = .ok u ↔ dest.IsVector n := by
  simp only [checkDest, Binding.IsVector]
  by_cases hk : dest.kind = .vector
  · simp only [hk, ne_eq, not_true_eq_false, if_false, bind_eq_ok, lift_fault_eq_ok, true_and]
    refine ⟨?_, ?_⟩
    · intro hok
      obtain ⟨k, hlen, h⟩ := hok
      split_ifs at h with hn
      · exact hn ▸ hlen
    · exact fun hlen => ⟨n, hlen, by simp⟩
  · simp [hk, bind_eq_ok]

theorem lookup_eq_some {s : String} {f : FunctionName} : FunctionName.lookup s = some f ↔ f.name = s := by
  refine ⟨?_, ?_⟩
  · intro h
    simpa using List.find?_some h
  · intro hspec
    subst hspec
    cases f <;> rfl

theorem denotes_of_resolveTokens {d : Directory} {command dest function : String} {operands : List String}
    {op : Operation} (h : resolveTokens d command dest function operands = .ok op) :
    Denotes d (dest :: function :: operands) op := by
  unfold resolveTokens at h
  split_ifs at h
  · simp [bind_eq_ok] at h
  split at h
  · next f hf =>
    simp only [bind_eq_ok, lift_refusal_eq_ok, resolveDest_eq_ok, mapM_eq_ok] at h
    obtain ⟨x, ⟨rfl, hx⟩, tokens, htokens, h⟩ := h
    obtain rfl := lookup_eq_some.1 hf
    cases f with
    | multiply =>
      simp only [bind_eq_ok, checkDest_eq_ok, pure_eq_ok] at h
      obtain ⟨⟨_, n⟩, hop, _, hdest, rfl⟩ := h
      rcases resolveMultiply_eq_ok.1 hop with ⟨src, factor, rfl, hsrc, rfl⟩ | ⟨matrix, vector, rfl, hm, hv, rfl, rfl⟩
      · simp only [List.forall₂_cons_right_iff, List.forall₂_nil_right_iff, Token.parse_binding_eq_ok,
          Token.parse_literal_eq_ok] at htokens
        obtain ⟨_, _, ⟨rfl, hs⟩, ⟨_, _, hf, rfl, rfl⟩, rfl⟩ := htokens
        exact .scale hx hs hf hdest hsrc
      · simp only [List.forall₂_cons_right_iff, List.forall₂_nil_right_iff, Token.parse_binding_eq_ok] at htokens
        obtain ⟨_, _, ⟨rfl, hmr⟩, ⟨_, _, ⟨rfl, hvr⟩, rfl, rfl⟩, rfl⟩ := htokens
        exact .product hx hmr hvr hm hdest hv
    | add =>
      simp only [bind_eq_ok, checkDest_eq_ok, pure_eq_ok] at h
      obtain ⟨⟨_, n⟩, hop, _, hdest, rfl⟩ := h
      obtain ⟨lhs, rhs, rfl, hl, hr, rfl⟩ := resolveAdd_eq_ok.1 hop
      simp only [List.forall₂_cons_right_iff, List.forall₂_nil_right_iff, Token.parse_binding_eq_ok] at htokens
      obtain ⟨_, _, ⟨rfl, hlr⟩, ⟨_, _, ⟨rfl, hrr⟩, rfl, rfl⟩, rfl⟩ := htokens
      exact .add hx hlr hrr hdest hl hr
  · simp at h

/-- what the resolver answers for a destination and operands that can be looked up -/
theorem resolveTokens_of_parsed {d : Directory} {command : String} {dest : Binding} {f : FunctionName}
    {operands : List String} {tokens : List Token} {op : Operation} {n : Nat} (hdest : dest.Recorded d)
    (hlen : operands.length ≤ maxOperands) (htokens : List.Forall₂ (fun s t => Token.parse d s = .ok t) operands tokens)
    (hop : (match f with
      | .multiply => resolveMultiply dest tokens
      | .add => resolveAdd dest tokens) = .ok (op, n))
    (hdn : dest.IsVector n) : resolveTokens d command dest.name f.name operands = .ok op := by
  unfold resolveTokens
  rw [if_neg (by omega), lookup_eq_some.2 rfl]
  have hd := resolveDest_eq_ok.2 ⟨rfl, hdest⟩
  have ht := mapM_eq_ok.2 htokens
  have hc := checkDest_eq_ok (f := f) (u := ()).2 hdn
  cases f with
  | multiply => simp [bind_eq_ok, hd, ht, hop, hc]
  | add => simp [bind_eq_ok, hd, ht, hop, hc]

theorem resolveTokens_of_denotes {d : Directory} {command dest function : String} {operands : List String}
    {op : Operation} (h : Denotes d (dest :: function :: operands) op) :
    resolveTokens d command dest function operands = .ok op := by
  cases h with
  | scale hdest hsrc hfactor hdn hsn =>
    refine resolveTokens_of_parsed (f := .multiply) hdest le_rfl
      (.cons (Token.parse_binding_eq_ok.2 ⟨rfl, hsrc⟩) (.cons (Token.parse_literal_eq_ok.2 hfactor) .nil)) ?_ hdn
    exact resolveMultiply_eq_ok.2 (.inl ⟨_, _, rfl, hsn, rfl⟩)
  | product hdest hmatrix hvector hmk hdn hvn =>
    refine resolveTokens_of_parsed (f := .multiply) hdest le_rfl
      (.cons (Token.parse_binding_eq_ok.2 ⟨rfl, hmatrix⟩) (.cons (Token.parse_binding_eq_ok.2 ⟨rfl, hvector⟩) .nil))
      ?_ hdn
    exact resolveMultiply_eq_ok.2 (.inr ⟨_, _, rfl, hmk, hvn, rfl, rfl⟩)
  | add hdest hlhs hrhs hdn hln hrn =>
    refine resolveTokens_of_parsed (f := .add) hdest le_rfl
      (.cons (Token.parse_binding_eq_ok.2 ⟨rfl, hlhs⟩) (.cons (Token.parse_binding_eq_ok.2 ⟨rfl, hrhs⟩) .nil)) ?_ hdn
    exact resolveAdd_eq_ok.2 ⟨_, _, rfl, hln, hrn, rfl⟩

/-- the resolver answers an operation exactly if the tokens of the command denote it -/
theorem resolve_eq_ok {d : Directory} {command : String} {r : Resolved} :
    resolve d command = .ok r ↔
      r.text = command ∧ ∃ tokens, tokenize command = .ok tokens ∧ Denotes d tokens r.operation := by
  obtain ⟨text, op⟩ := r
  simp only [resolve, bind_eq_ok, lift_refusal_eq_ok]
  refine ⟨?_, ?_⟩
  · intro hok
    obtain ⟨tokens, htokens, h⟩ := hok
    split at h
    · simp only [bind_eq_ok, pure_eq_ok, Resolved.mk.injEq] at h
      obtain ⟨_, h, rfl, rfl⟩ := h
      exact ⟨rfl, _, htokens, denotes_of_resolveTokens h⟩
    · simp at h
  · intro hspec
    obtain ⟨rfl, tokens, htokens, h⟩ := hspec
    refine ⟨tokens, htokens, ?_⟩
    cases h <;> exact bind_eq_ok.2 ⟨_, resolveTokens_of_denotes (by constructor <;> assumption), rfl⟩

end Command

/-! ## Signatures -/

namespace NameMap

variable {α : Type}

theorem get?_eq_some_of_mem (m : NameMap α) {e : String × α} (h : e ∈ m.entries) : m.get? e.1 = some e.2 := by
  obtain ⟨entries, hasc⟩ := m
  simp only [get?]
  induction entries with
  | nil => simp at h
  | cons x rest ih =>
    obtain ⟨hx, hrest⟩ := List.pairwise_cons.1 hasc
    rcases List.mem_cons.1 h with rfl | h
    · simp
    · have hne : x.1 ≠ e.1 := fun he => String.lt_irrefl e.1 (he ▸ hx e h)
      rw [List.find?_cons_of_neg (by simpa using hne)]
      exact ih hrest h

theorem mem_of_get?_eq_some (m : NameMap α) {name : String} {v : α} (h : m.get? name = some v) :
    (name, v) ∈ m.entries := by
  obtain ⟨⟨n, w⟩, hfind, rfl⟩ := Option.map_eq_some_iff.1 h
  obtain rfl : n = name := by simpa using List.find?_some hfind
  exact List.mem_of_find?_eq_some hfind

theorem get?_putNew (m : NameMap α) (name other : String) (v : α) :
    (m.putNew name v).get? other = (m.get? other).or (if other = name then some v else none) := by
  unfold putNew contains
  by_cases ho : other = name
  · subst ho
    cases h : m.get? other with
    | none => simp [m.get?_put_self]
    | some w => simp [h]
  · cases m.get? name with
    | none => simp [m.get?_put_of_ne ho, ho]
    | some w => simp [ho]

end NameMap

namespace Signature

theorem verifyEntry_eq_ok {d : Directory} {e : String × Item} {u : Unit} :
    verifyEntry d e = .ok u ↔ d.get? e.1 = some e.2 := by
  obtain ⟨name, expected⟩ := e
  simp only [verifyEntry]
  cases d.get? name with
  | none => simp
  | some found =>
    simp only [Option.some.injEq]
    split_ifs with hf <;> simp [hf]

/-- a signature asks for every item on its record, and for nothing else -/
theorem verify_eq_ok {s : Signature} {d : Directory} {u : Unit} :
    s.verify d = .ok u ↔ ∀ name item, s.entries.get? name = some item → d.get? name = some item := by
  simp only [verify, forM_eq_ok, verifyEntry_eq_ok]
  refine ⟨?_, ?_⟩
  · exact fun h name item hi => h _ (s.entries.mem_of_get?_eq_some hi)
  · exact fun h e he => h _ _ (s.entries.get?_eq_some_of_mem he)

theorem get?_record (s : Signature) (name other : String) (item : Item) :
    (s.record name item).entries.get? other = (s.entries.get? other).or (if other = name then some item else none) :=
  s.entries.get?_putNew name other item

/-- of the records of a name the first one counts -/
theorem get?_foldl_record (bs : List Binding) (s : Signature) (name : String) :
    (bs.foldl (fun s x => s.record x.name x.item) s).entries.get? name =
      (s.entries.get? name).or ((bs.find? (·.name == name)).map (·.item)) := by
  induction bs generalizing s with
  | nil => simp
  | cons x bs ih =>
    rw [List.foldl_cons, ih, get?_record, Option.or_assoc]
    by_cases hx : x.name = name
    · simp [hx]
    · simp [hx, Ne.symm hx]

/-- the signature of commands holds the item of the first binding of each name -/
theorem get?_ofCommands (commands : List Resolved) (name : String) :
    (ofCommands commands).entries.get? name =
      ((commands.flatMap (·.operation.bindings)).find? (·.name == name)).map (·.item) :=
  (get?_foldl_record _ _ name).trans Option.none_or

/-- what the signature of commands holds is the item of one of their bindings -/
theorem exists_of_get?_ofCommands {commands : List Resolved} {name : String} {item : Item}
    (h : (ofCommands commands).entries.get? name = some item) :
    ∃ r ∈ commands, ∃ x ∈ r.operation.bindings, x.name = name ∧ x.item = item := by
  rw [get?_ofCommands, Option.map_eq_some_iff] at h
  obtain ⟨x, hfind, hitem⟩ := h
  obtain ⟨r, hr, hx⟩ := List.mem_flatMap.1 (List.mem_of_find?_eq_some hfind)
  exact ⟨r, hr, x, hx, by simpa using List.find?_some hfind, hitem⟩

/-- the signature of commands that were resolved against one directory asks for the items they were resolved with -/
theorem verify_ofCommands {d d' : Directory} {commands : List Resolved}
    (h : ∀ r ∈ commands, ∀ x ∈ r.operation.bindings, d.get? x.name = some x.item) {u : Unit} :
    (ofCommands commands).verify d' = .ok u ↔
      ∀ r ∈ commands, ∀ x ∈ r.operation.bindings, d'.get? x.name = some x.item := by
  rw [verify_eq_ok]
  refine ⟨?_, ?_⟩
  · intro hv r hr x hx
    have hmem : x ∈ commands.flatMap (·.operation.bindings) := List.mem_flatMap.2 ⟨r, hr, hx⟩
    cases hfind : (commands.flatMap (·.operation.bindings)).find? (·.name == x.name) with
    | none => exact absurd (List.find?_eq_none.1 hfind x hmem) (by simp)
    | some y =>
      -- the first record of the name has the same item, both being the item of one directory
      have hname : y.name = x.name := by simpa using List.find?_some hfind
      obtain ⟨r', hr', hy⟩ := List.mem_flatMap.1 (List.mem_of_find?_eq_some hfind)
      have hitem : y.item = x.item := Option.some.inj ((h r' hr' y hy).symm.trans (hname ▸ h r hr x hx))
      exact hv x.name x.item (by rw [get?_ofCommands, hfind, Option.map_some, hitem])
  · intro hv name item hi
    obtain ⟨r, hr, x, hx, rfl, rfl⟩ := exists_of_get?_ofCommands hi
    exact hv r hr x hx

end Signature

end ArrayEngine
