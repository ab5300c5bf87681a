/-
The typing rules of commands.

`Command.Rule` says which operation the tokens of a command stand for, by the kinds and the extents that a directory
records for the names among them; a name is a token that is no literal. In a directory whose items are `Proper`, with as
many extents as their kind asks for and fewer than 2^64 elements,
- `rule_iff_denotes`: the rules are what the resolver computes with the lengths of vectors;
- `resolve_follows_rules`: a command is resolved exactly to the operation that the rules give its tokens, as many results
  as the destination has elements, and every other command is refused. No command ends in a fault.
-/
import ArrayEngine.Proofs.Literals
import ArrayEngine.Proofs.Resolve

namespace ArrayEngine

/-! ## Names and rules -/

/-- as many extents as the kind asks for, and fewer elements than sizes can count -/
structure Item.Proper (item : Item) : Prop where
  ranked : item.shape.length = item.kind.rank
  counted : item.count < Size.bound

def Directory.Proper (d : Directory) : Prop := ∀ name item, d.get? name = some item → item.Proper

/-- the item that a directory records for a name has the given kind and extents; a name is no literal -/
structure Binding.Names (d : Directory) (x : Binding) (kind : Kind) (extents : List Nat) : Prop where
  noLiteral : ∀ v, ¬Single.Literal x.name.toList v
  recorded : d.get? x.name = some x.item
  kind : x.item.kind = kind
  shape : x.item.shape = extents

/-- the typing rules, one for each operation -/
inductive Command.Rule (d : Directory) : List String → Operation → Prop
  | scale {dest src : Binding} {text : String} {factor : Single} {n : Nat} (hdest : dest.Names d .vector [n])
      (hsrc : src.Names d .vector [n]) (hfactor : Single.Literal text.toList factor) :
    Rule d [dest.name, "multiply", src.name, text] (.scale dest src factor)
  | product {dest matrix vector : Binding} {rows cols : Nat} (hdest : dest.Names d .vector [rows])
      (hmatrix : matrix.Names d .matrix [rows, cols]) (hvector : vector.Names d .vector [cols]) :
    Rule d [dest.name, "multiply", matrix.name, vector.name] (.product dest matrix vector)
  | add {dest lhs rhs : Binding} {n : Nat} (hdest : dest.Names d .vector [n]) (hlhs : lhs.Names d .vector [n])
      (hrhs : rhs.Names d .vector [n]) : Rule d [dest.name, "add", lhs.name, rhs.name] (.add dest lhs rhs)

section

variable {d : Directory} {x : Binding} {n : Nat} {tokens : List String} {op : Operation}

/-! ## The rules and the lengths of vectors -/

namespace Item.Proper

variable {item : Item}

/-- the elements of a vector can be counted -/
theorem elementCount_vector (h : item.Proper) (hk : item.kind = .vector) : item.elementCount = .ok item.count := by
  rw [Item.elementCount, Item.shape_of_vector h.ranked hk, Size.product_single]
  exact Size.checked_eq_ok.2 ⟨h.counted, rfl⟩

end Item.Proper

theorem Binding.names_iff {kind : Kind} {extents : List Nat} :
    x.Names d kind extents ↔ x.Recorded d ∧ x.kind = kind ∧ x.item.shape = extents := by
  constructor
  · intro h
    exact ⟨⟨Single.readFinite_eq_none.2 h.noLiteral, h.recorded⟩, h.kind, h.shape⟩
  · intro h
    obtain ⟨hrec, hkind, hshape⟩ := h
    exact ⟨Single.readFinite_eq_none.1 hrec.1, hrec.2, hkind, hshape⟩

namespace Directory.Proper

/-- a vector with its one extent, or with its length -/
theorem names_vector_iff (hd : d.Proper) : x.Names d .vector [n] ↔ x.Recorded d ∧ x.IsVector n := by
  rw [Binding.names_iff]
  refine and_congr_right fun hrec => and_congr_right fun hkind => ?_
  have hproper := hd _ _ hrec.2
  rw [Binding.length, hproper.elementCount_vector hkind, Item.shape_of_vector hproper.ranked hkind]
  simp

theorem names_matrix_iff (hd : d.Proper) {rows cols : Nat} :
    x.Names d .matrix [rows, cols] ↔ x.Recorded d ∧ x.kind = .matrix ∧ x.item.rows = rows ∧ x.item.cols = cols := by
  rw [Binding.names_iff]
  refine and_congr_right fun hrec => and_congr_right fun hkind => ?_
  rw [Item.shape_of_matrix (hd _ _ hrec.2).ranked hkind]
  simp

/-- the rules are what the resolver computes -/
theorem rule_iff_denotes (hd : d.Proper) : Command.Rule d tokens op ↔ Command.Denotes d tokens op := by
  constructor
  · intro h
    cases h with
    | scale hdest hsrc hfactor =>
      obtain ⟨hdest, hdn⟩ := hd.names_vector_iff.1 hdest
      obtain ⟨hsrc, hsn⟩ := hd.names_vector_iff.1 hsrc
      exact .scale hdest hsrc (Single.readFinite_eq_some.2 hfactor) hdn hsn
    | product hdest hmatrix hvector =>
      obtain ⟨hrecorded, hkind, rfl, rfl⟩ := hd.names_matrix_iff.1 hmatrix
      obtain ⟨hdest, hdn⟩ := hd.names_vector_iff.1 hdest
      obtain ⟨hvector, hvn⟩ := hd.names_vector_iff.1 hvector
      exact .product hdest hrecorded hvector hkind hdn hvn
    | add hdest hlhs hrhs =>
      obtain ⟨hdest, hdn⟩ := hd.names_vector_iff.1 hdest
      obtain ⟨hlhs, hln⟩ := hd.names_vector_iff.1 hlhs
      obtain ⟨hrhs, hrn⟩ := hd.names_vector_iff.1 hrhs
      exact .add hdest hlhs hrhs hdn hln hrn
  · intro h
    cases h with
    | scale hdest hsrc hfactor hdn hsn =>
      exact .scale (hd.names_vector_iff.2 ⟨hdest, hdn⟩) (hd.names_vector_iff.2 ⟨hsrc, hsn⟩)
        (Single.readFinite_eq_some.1 hfactor)
    | product hdest hmatrix hvector hmk hdn hvn =>
      exact .product (hd.names_vector_iff.2 ⟨hdest, hdn⟩) (hd.names_matrix_iff.2 ⟨hmatrix, hmk, rfl, rfl⟩)
        (hd.names_vector_iff.2 ⟨hvector, hvn⟩)
    | add hdest hlhs hrhs hdn hln hrn =>
      exact .add (hd.names_vector_iff.2 ⟨hdest, hdn⟩) (hd.names_vector_iff.2 ⟨hlhs, hln⟩)
        (hd.names_vector_iff.2 ⟨hrhs, hrn⟩)

end Directory.Proper

/-- an operation has as many results as its destination has elements -/
theorem Command.Rule.workSize (hd : d.Proper) (h : Command.Rule d tokens op) :
    ∃ n, op.dest.Names d .vector [n] ∧ op.workSize = .ok n := by
  cases h with
  | scale hdest hsrc => exact ⟨_, hdest, (hd.names_vector_iff.1 hsrc).2.2⟩
  | product hdest hmatrix =>
    obtain ⟨-, -, rfl, rfl⟩ := hd.names_matrix_iff.1 hmatrix
    exact ⟨_, hdest, rfl⟩
  | add hdest hlhs => exact ⟨_, hdest, (hd.names_vector_iff.1 hlhs).2.2⟩

end

/-! ## Refusals -/

/-- what ends with a result or is refused -/
def Answers {α : Type} (x : Except Failure α) : Prop := ∀ f, x ≠ .error (.fault f)

namespace Answers

variable {α β : Type}

theorem ok (a : α) : Answers (.ok a) := nofun

theorem refused (e : EngineError) : Answers (.error (.refused e) : Except Failure α) := nofun

theorem lift (x : Except EngineError α) : Answers (liftM x : Except Failure α) := by
  cases x with
  | ok a => exact ok a
  | error e => exact refused e

theorem bind {x : Except Failure α} {f : α → Except Failure β} (hx : Answers x) (hf : ∀ a, x = .ok a → Answers (f a)) :
    Answers (x >>= f) := by
  cases x with
  | ok a => exact hf a rfl
  | error e => exact fun f h => hx f (congrArg _ (Except.error.inj h))

end Answers

theorem Binding.Recorded.length_eq {d : Directory} {x : Binding} (hx : x.Recorded d) (hd : d.Proper)
    (hk : x.kind = .vector) : x.length = .ok x.item.count := (hd _ _ hx.2).elementCount_vector hk

namespace Command

section

/-- tokens whose vectors have lengths -/
def Counted (operands : List Token) : Prop :=
  ∀ x, .binding x ∈ operands → x.kind = .vector → x.length = .ok x.item.count

variable {d : Directory} {dest : Binding} {operands : List Token}

theorem answers_resolveMultiply (h : Counted operands) : Answers (resolveMultiply dest operands) := by
  unfold resolveMultiply noSignature
  split
  · next src factor =>
    split_ifs with hk
    · rw [h src (by simp) hk]
      exact .ok _
    · exact .refused _
  · next matrix vector =>
    split_ifs with hk
    · rw [h vector (by simp) hk.2, ok_lift_fault, ok_bind]
      split_ifs
      · exact .ok _
      · exact .refused _
    · exact .refused _
  · exact .refused _

theorem answers_resolveAdd (h : Counted operands) : Answers (resolveAdd dest operands) := by
  unfold resolveAdd noSignature
  split
  · next lhs rhs =>
    split_ifs with hk
    · rw [h lhs (by simp) hk.1, h rhs (by simp) hk.2, ok_lift_fault, ok_bind, ok_lift_fault, ok_bind]
      split_ifs
      · exact .ok _
      · exact .refused _
    · exact .refused _
  · exact .refused _

theorem answers_checkDest (f : FunctionName) (h : dest.kind = .vector → dest.length = .ok dest.item.count)
    (results : Nat) : Answers (checkDest f dest results) := by
  by_cases hk : dest.kind = .vector
  · simp only [checkDest, hk, ne_eq, not_true_eq_false, if_false, h hk, ok_lift_fault, ok_bind]
    split_ifs
    · exact .ok _
    · exact .refused _
  · simp only [checkDest, hk, ne_eq, not_false_eq_true, if_true]
    exact .refused _

/-- in a proper directory every command is resolved or refused -/
theorem answers_resolveTokens (hd : d.Proper) (command dest function : String) (operands : List String) :
    Answers (resolveTokens d command dest function operands) := by
  unfold resolveTokens
  split_ifs
  · exact .refused _
  split
  · next f hf =>
    refine .bind (.lift _) fun x hx => .bind (.lift _) fun tokens htokens => ?_
    obtain ⟨-, hrec⟩ := resolveDest_eq_ok.1 (lift_refusal_eq_ok.1 hx)
    have hcounted : Counted tokens := by
      intro y hy hk
      obtain ⟨text, -, htext⟩ := exists_of_mem_mapM (lift_refusal_eq_ok.1 htokens) hy
      exact (Token.parse_binding_eq_ok.1 htext).2.length_eq hd hk
    have hcheck : ∀ n, Answers (checkDest f x n) := answers_checkDest f fun hk => hrec.length_eq hd hk
    cases f with
    | multiply =>
      exact .bind (answers_resolveMultiply hcounted) fun r _ => .bind (hcheck r.2) fun _ _ => .ok _
    | add =>
      exact .bind (answers_resolveAdd hcounted) fun r _ => .bind (hcheck r.2) fun _ _ => .ok _
  · exact .refused _

theorem answers_resolve (hd : d.Proper) (command : String) : Answers (resolve d command) := by
  unfold resolve
  refine .bind (.lift _) fun tokens _ => ?_
  split
  · exact .bind (answers_resolveTokens hd _ _ _ _) fun _ _ => .ok _
  · exact .refused _

end

/-- **The resolver decides the typing rules.** In a proper directory a command is resolved exactly to the operation that
the rules give its tokens, with the text of the command, and has as many results as its destination has elements. Any
other command is refused. -/
theorem resolve_follows_rules {d : Directory} (hd : d.Proper) (command : String) :
    (∀ r, resolve d command = .ok r ↔
      r.text = command ∧ ∃ tokens, tokenize command = .ok tokens ∧ Rule d tokens r.operation) ∧
    (∀ r, resolve d command = .ok r → ∃ n, r.operation.dest.Names d .vector [n] ∧ r.operation.workSize = .ok n) ∧
    ((∃ r, resolve d command = .ok r) ∨ ∃ e, resolve d command = .error (.refused e)) := by
  have hrule (r : Resolved) : resolve d command = .ok r ↔
      r.text = command ∧ ∃ tokens, tokenize command = .ok tokens ∧ Rule d tokens r.operation := by
    simp only [hd.rule_iff_denotes, resolve_eq_ok]
  refine ⟨hrule, ?_, ?_⟩
  · intro r hr
    obtain ⟨-, tokens, -, h⟩ := (hrule r).1 hr
    exact h.workSize hd
  · cases h : resolve d command with
    | ok r => exact .inl ⟨r, rfl⟩
    | error e =>
      cases e with
      | refused e => exact .inr ⟨e, rfl⟩
      | fault f => exact absurd h (answers_resolve hd command f)

/-- a directory with a matrix and two vectors -/
def shelf : Directory :=
  ⟨(((∅ : NameMap Item).put "M" ⟨.matrix, 0, [2, 3]⟩).put "x" ⟨.vector, 6, [3]⟩).put "y" ⟨.vector, 9, [2]⟩⟩

theorem proper_shelf : shelf.Proper := by
  intro name item h
  have hall : ∀ e ∈ shelf.items.entries, e.2.shape.length = e.2.kind.rank ∧ e.2.shape.prod < Size.bound := by
    decide +kernel
  exact ⟨(hall _ (shelf.items.mem_of_get?_eq_some h)).1, (hall _ (shelf.items.mem_of_get?_eq_some h)).2⟩

theorem resolve_shelf : shelf.Proper ∧ ∃ r, resolve shelf "y = multiply M x" = .ok r ∧
    r.operation = .product ⟨"y", .vector, 9, [2]⟩ ⟨"M", .matrix, 0, [2, 3]⟩ ⟨"x", .vector, 6, [3]⟩ := by
  have hy : Binding.Names shelf ⟨"y", .vector, 9, [2]⟩ .vector [2] :=
    Binding.names_iff.2 ⟨⟨by decide +kernel, by decide +kernel⟩, rfl, rfl⟩
  have hM : Binding.Names shelf ⟨"M", .matrix, 0, [2, 3]⟩ .matrix [2, 3] :=
    Binding.names_iff.2 ⟨⟨by decide +kernel, by decide +kernel⟩, rfl, rfl⟩
  have hx : Binding.Names shelf ⟨"x", .vector, 6, [3]⟩ .vector [3] :=
    Binding.names_iff.2 ⟨⟨by decide +kernel, by decide +kernel⟩, rfl, rfl⟩
  refine ⟨proper_shelf, ⟨_, _⟩, ((resolve_follows_rules proper_shelf _).1 _).2 ⟨rfl, _, ?_, .product hy hM hx⟩, rfl⟩
  decide +kernel

end Command

end ArrayEngine
