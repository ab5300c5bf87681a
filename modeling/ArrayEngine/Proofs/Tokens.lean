/-
The tokens of a command, and the names that they reach.

`Written tokens` is the grammar of the commands with these tokens: a destination between blanks, the first `=`, and at
least one word with blanks around. A destination may have blanks inside, words may have further `=` in them.
- `tokenize_eq_ok`: the tokenizer decides this grammar;
- `tokenize_write`: tokens that are written with one blank between them are the tokens of what is written;
- `alike_resolve`: what a command is resolved to depends on its tokens only, where a malformed command is quoted apart;
- `tokenize_normal`: so the tokens are a normal form of the command;
- `names_reached`: and a name in a directory is reached by some command exactly if it can stand as a word, or as a
  destination, and is no literal.
-/
import ArrayEngine.Proofs.Cutting
import ArrayEngine.Proofs.Literals
import ArrayEngine.Proofs.Resolve

namespace ArrayEngine.Command

/-! ## The grammar of commands -/

/-- what can stand as a destination -/
structure Destination (cs : List Char) : Prop where
  ne_nil : cs ≠ []
  noEquals : '=' ∉ cs
  tight : Text.Tight cs

instance (cs : List Char) : Decidable (Destination cs) :=
  decidable_of_iff (cs ≠ [] ∧ '=' ∉ cs ∧ Text.Tight cs)
    ⟨fun h => ⟨h.1, h.2.1, h.2.2⟩, fun h => ⟨h.ne_nil, h.noEquals, h.tight⟩⟩

/-- the texts of the commands with the given tokens -/
inductive Written : List String → List Char → Prop
  | mk {dest left right : List Char} {words : List (List Char)} (hdest : Destination dest)
      (hleft : Text.Padded dest left) (hright : Text.Spaced words right) (hne : words ≠ []) :
    Written ((dest :: words).map String.ofList) (left ++ '=' :: right)

/-- blanks around a destination add no `=` -/
theorem not_mem_of_padded {dest left : List Char} (h : Text.Padded dest left) : '=' ∉ left ↔ '=' ∉ dest :=
  h.not_mem_iff (by decide)

variable {command : String} {tokens : List String}

theorem written_of_tokenize (h : tokenize command = .ok tokens) : Written tokens command.toList := by
  unfold tokenize at h
  split at h
  · cases h
  · next left right hcut =>
    obtain ⟨hequals, hcommand⟩ := Text.splitFirst_eq_some.1 hcut
    simp only at h
    split_ifs at h with hdest hwords
    cases h
    rw [hcommand]
    have hpadded := Text.padded_trim left
    exact .mk ⟨hdest, (not_mem_of_padded hpadded).1 hequals, Text.tight_trim left⟩ hpadded (Text.spaced_words right)
      hwords

theorem tokenize_of_written (h : Written tokens command.toList) : tokenize command = .ok tokens := by
  unfold tokenize
  generalize command.toList = cs at h
  obtain ⟨hdest, hleft, hright, hne⟩ := h
  have hequals := (not_mem_of_padded hleft).2 hdest.noEquals
  simp only [Text.splitFirst_append hequals, Text.trim_of_padded hleft hdest.tight, Text.words_of_spaced hright,
    if_neg hdest.ne_nil, if_neg hne]

/-- the tokenizer decides the grammar -/
theorem tokenize_eq_ok : tokenize command = .ok tokens ↔ Written tokens command.toList :=
  ⟨written_of_tokenize, tokenize_of_written⟩

/-- a command has tokens exactly if something stands before its first `=` and something after it -/
theorem exists_tokens_iff : (∃ tokens, tokenize command = .ok tokens) ↔
    ∃ left right, command.toList = left ++ '=' :: right ∧ '=' ∉ left ∧ (∃ c ∈ left, Text.isBlank c = false) ∧
      ∃ c ∈ right, Text.isBlank c = false := by
  have hsome (cs : List Char) : (∃ c ∈ cs, Text.isBlank c = false) ↔ ¬Text.Blanks cs := by simp [Text.Blanks]
  simp only [hsome, tokenize_eq_ok]
  constructor
  · intro h
    obtain ⟨tokens, h⟩ := h
    generalize command.toList = cs at h
    obtain ⟨hdest, hleft, hright, hne⟩ := h
    refine ⟨_, _, rfl, (not_mem_of_padded hleft).2 hdest.noEquals, ?_, ?_⟩
    · rw [← Text.trim_eq_nil, Text.trim_of_padded hleft hdest.tight]
      exact hdest.ne_nil
    · rw [← Text.words_eq_nil, Text.words_of_spaced hright]
      exact hne
  · intro h
    obtain ⟨left, right, hcommand, hequals, hleft, hright⟩ := h
    have hpadded := Text.padded_trim left
    rw [hcommand]
    exact ⟨_, .mk ⟨mt Text.trim_eq_nil.1 hleft, (not_mem_of_padded hpadded).1 hequals, Text.tight_trim left⟩ hpadded
      (Text.spaced_words right) (mt Text.words_eq_nil.1 hright)⟩

/-! ## Tokens that are written -/

/-- a destination and at least one word -/
inductive Normal : List String → Prop
  | mk {dest function : String} {operands : List String} (hdest : Destination dest.toList)
      (hwords : ∀ w ∈ function :: operands, Text.Word w.toList) : Normal (dest :: function :: operands)

/-- tokens as a command, with one blank around the `=` and between words -/
def write : List String → String
  | [] => ""
  | dest :: words => dest ++ " = " ++ " ".intercalate words

theorem Written.normal {cs : List Char} (h : Written tokens cs) : Normal tokens := by
  obtain ⟨hdest, -, hright, hne⟩ := h
  obtain ⟨function, operands, rfl⟩ := List.exists_cons_of_ne_nil hne
  refine .mk (by rwa [String.toList_ofList]) ?_
  intro w hw
  rw [← List.map_cons] at hw
  obtain ⟨cs, hcs, rfl⟩ := List.mem_map.1 hw
  rw [String.toList_ofList]
  exact hright.word cs hcs

theorem tokenize_write (h : Normal tokens) : tokenize (write tokens) = .ok tokens := by
  obtain ⟨hdest, hwords⟩ := h
  rename_i dest function operands
  rw [tokenize_eq_ok]
  have hspace : Text.Blanks [' '] := by decide
  have hlist : ∀ w ∈ (function :: operands).map String.toList, Text.Word w := List.forall_mem_map.2 hwords
  have hleft : Text.Padded dest.toList ([] ++ dest.toList ++ [' ']) := .mk Text.blanks_nil hspace
  have hright : Text.Spaced ((function :: operands).map String.toList)
      ([' '] ++ [' '].intercalate ((function :: operands).map String.toList)) := by
    rw [← Text.words_eq_iff, Text.words_blanks_append hspace, Text.words_intercalate hlist]
  have hcommand : (write (dest :: function :: operands)).toList = ([] ++ dest.toList ++ [' ']) ++
      '=' :: ([' '] ++ [' '].intercalate ((function :: operands).map String.toList)) := by
    simp [write, String.toList_intercalate]
  have htokens : dest :: function :: operands =
      (dest.toList :: (function :: operands).map String.toList).map String.ofList := by simp [Function.comp_def]
  rw [hcommand, htokens]
  exact .mk hdest hleft hright (by simp)

/-! ## Commands with the same tokens -/

/-- what two commands come to that mean the same: one operation, or one failure, where a malformed command is quoted -/
inductive Alike (command other : String) : Except Failure Resolved → Except Failure Resolved → Prop
  | resolved (operation : Operation) : Alike command other (.ok ⟨command, operation⟩) (.ok ⟨other, operation⟩)
  | malformed (reason : Malformed) : Alike command other (.error (.refused (.malformed command reason)))
      (.error (.refused (.malformed other reason)))
  | failed (f : Failure) : Alike command other (.error f) (.error f)

/-- the text of a command matters only where it is quoted, for too many operands -/
theorem resolveTokens_text (d : Directory) (command other dest function : String) (operands : List String) :
    resolveTokens d command dest function operands =
      if maxOperands < operands.length then .error (.refused (.malformed command (.operandCount operands.length)))
      else resolveTokens d other dest function operands := by
  unfold resolveTokens
  split_ifs <;> rfl

theorem resolve_of_tokenize {dest function : String} {operands : List String}
    (h : tokenize command = .ok (dest :: function :: operands)) (d : Directory) :
    resolve d command = (resolveTokens d command dest function operands).map (⟨command, ·⟩) := by
  rw [resolve, h, ok_lift_refusal, ok_bind]
  change (resolveTokens d command dest function operands >>= fun operation => pure (Resolved.mk command operation)) = _
  cases resolveTokens d command dest function operands <;> rfl

/-- commands with the same tokens are resolved alike -/
theorem alike_resolve {other : String} (h : tokenize command = .ok tokens) (hother : tokenize other = .ok tokens)
    (d : Directory) : Alike command other (resolve d command) (resolve d other) := by
  obtain ⟨hdest, hwords⟩ := (written_of_tokenize h).normal
  rename_i dest function operands
  rw [resolve_of_tokenize h, resolve_of_tokenize hother]
  by_cases hmany : maxOperands < operands.length
  · rw [resolveTokens_text d command other, resolveTokens_text d other command, if_pos hmany, if_pos hmany]
    exact .malformed _
  · rw [resolveTokens_text d command other, if_neg hmany]
    cases resolveTokens d other dest function operands with
    | ok operation => exact .resolved operation
    | error f => exact .failed f

/-- **Tokens are a normal form.** A command has tokens exactly if something other than blanks stands before its first
`=` and after it. They are the parts of the command: a destination without `=` and without a blank at either end, and at
least one word. Written out, they are the tokens of what is written, and every other command with these tokens is
resolved alike against every directory. -/
theorem tokenize_normal (command : String) :
    ((∃ tokens, tokenize command = .ok tokens) ↔
      ∃ left right, command.toList = left ++ '=' :: right ∧ '=' ∉ left ∧ (∃ c ∈ left, Text.isBlank c = false) ∧
        ∃ c ∈ right, Text.isBlank c = false) ∧
    ∀ tokens, tokenize command = .ok tokens →
      Written tokens command.toList ∧ Normal tokens ∧ tokenize (write tokens) = .ok tokens ∧
      ∀ other, tokenize other = .ok tokens → ∀ d, Alike command other (resolve d command) (resolve d other) := by
  refine ⟨exists_tokens_iff, ?_⟩
  intro tokens h
  have hwritten := written_of_tokenize h
  exact ⟨hwritten, hwritten.normal, tokenize_write hwritten.normal, fun other hother d => alike_resolve h hother d⟩

theorem tokenize_normal_inner : tokenize " a b\t=f  x=y \n" = .ok ["a b", "f", "x=y"] ∧
    write ["a b", "f", "x=y"] = "a b = f x=y" ∧ tokenize "a b = f x=y" = .ok ["a b", "f", "x=y"] ∧
    Alike " a b\t=f  x=y \n" "a b = f x=y" (resolve ∅ " a b\t=f  x=y \n") (resolve ∅ "a b = f x=y") := by
  have htokens : tokenize " a b\t=f  x=y \n" = .ok ["a b", "f", "x=y"] := by decide +kernel
  have hwrite : write ["a b", "f", "x=y"] = "a b = f x=y" := by decide +kernel
  obtain ⟨-, -, hagain, halike⟩ := (tokenize_normal _).2 _ htokens
  rw [hwrite] at hagain
  exact ⟨htokens, hwrite, hagain, halike _ hagain ∅⟩

/-! ## Names that are reached -/

/-- some command has the name among its operands, where it stands for the item of this name -/
def ReachedAsOperand (d : Directory) (name : String) : Prop :=
  ∃ command dest function operands item, tokenize command = .ok (dest :: function :: operands) ∧ name ∈ operands ∧
    d.get? name = some item ∧ Token.parse d name = .ok (.binding ⟨name, item⟩)

/-- some command has the name as its destination, where it stands for the item of this name -/
def ReachedAsDestination (d : Directory) (name : String) : Prop :=
  ∃ command words item, tokenize command = .ok (name :: words) ∧ d.get? name = some item ∧
    Token.parse d name = .ok (.binding ⟨name, item⟩)

section

variable {d : Directory} {name : String} {item : Item}

/-- a name on record stands for its item, unless it is a literal -/
theorem parse_name_iff (h : d.get? name = some item) :
    Token.parse d name = .ok (.binding ⟨name, item⟩) ↔ ∀ x, ¬Single.Literal name.toList x := by
  rw [Token.parse_binding_eq_ok, ← Single.readFinite_eq_none]
  constructor
  · exact fun hparse => hparse.2.1
  · exact fun hliteral => ⟨rfl, hliteral, h⟩

theorem reachedAsOperand_iff (h : d.get? name = some item) :
    ReachedAsOperand d name ↔ Text.Word name.toList ∧ ∀ x, ¬Single.Literal name.toList x := by
  rw [← parse_name_iff h]
  constructor
  · intro hreached
    obtain ⟨command, dest, function, operands, item', htokens, hmem, hitem, hparse⟩ := hreached
    obtain ⟨-, hwords⟩ := (written_of_tokenize htokens).normal
    obtain rfl := Option.some.inj (hitem.symm.trans h)
    exact ⟨hwords name (List.mem_cons_of_mem function hmem), hparse⟩
  · intro hspec
    obtain ⟨hword, hparse⟩ := hspec
    have hdest : Destination "y".toList := by decide
    have hfunction : Text.Word "f".toList := by decide
    have hwords : ∀ w ∈ ["f", name], Text.Word w.toList :=
      List.forall_mem_cons.2 ⟨hfunction, List.forall_mem_singleton.2 hword⟩
    exact ⟨_, "y", "f", [name], item, tokenize_write (.mk hdest hwords), List.mem_singleton_self name, h, hparse⟩

theorem reachedAsDestination_iff (h : d.get? name = some item) :
    ReachedAsDestination d name ↔ Destination name.toList ∧ ∀ x, ¬Single.Literal name.toList x := by
  rw [← parse_name_iff h]
  constructor
  · intro hreached
    obtain ⟨command, words, item', htokens, hitem, hparse⟩ := hreached
    obtain ⟨hdest, -⟩ := (written_of_tokenize htokens).normal
    obtain rfl := Option.some.inj (hitem.symm.trans h)
    exact ⟨hdest, hparse⟩
  · intro hspec
    obtain ⟨hdest, hparse⟩ := hspec
    have hwords : ∀ w ∈ ["f"], Text.Word w.toList := List.forall_mem_singleton.2 (by decide)
    exact ⟨_, ["f"], item, tokenize_write (.mk hdest hwords), h, hparse⟩

/-- **Which names are reached.** A name on record can be an operand exactly if it is a word and no literal, and a
destination exactly if it is not empty, has no `=` and no blank at either end, and is no literal. A token that stands
for an item stands for the one that is on record under the token itself. -/
theorem names_reached (h : d.get? name = some item) :
    (ReachedAsOperand d name ↔
      (name ≠ "" ∧ ∀ c ∈ name.toList, Text.isBlank c = false) ∧ ∀ x, ¬Single.Literal name.toList x) ∧
    (ReachedAsDestination d name ↔
      (name ≠ "" ∧ Text.Tight name.toList ∧ '=' ∉ name.toList) ∧ ∀ x, ¬Single.Literal name.toList x) ∧
    ∀ text x, Token.parse d text = .ok (.binding x) → x.name = text ∧ d.get? text = some x.item := by
  have hne : name.toList ≠ [] ↔ name ≠ "" := String.toList_eq_nil_iff.not
  refine ⟨?_, ?_, ?_⟩
  · rw [reachedAsOperand_iff h, ← hne]
    exact and_congr_left fun _ => ⟨fun hw => ⟨hw.ne_nil, hw.visible⟩, fun hw => ⟨hw.1, hw.2⟩⟩
  · rw [reachedAsDestination_iff h, ← hne]
    exact and_congr_left fun _ => ⟨fun hd => ⟨hd.ne_nil, hd.tight, hd.noEquals⟩, fun hd => ⟨hd.1, hd.2.2, hd.2.1⟩⟩
  · intro text x hparse
    obtain ⟨hname, -, hitem⟩ := Token.parse_binding_eq_ok.1 hparse
    subst hname
    exact ⟨rfl, hitem⟩

end

/-- vectors of one element under names that are numbers, or look like them -/
def numerals : Directory :=
  ⟨["1e3", "1e39", "inf", "nan", "1 e3"].foldl (fun items name => items.put name ⟨.vector, items.size, [1]⟩) ∅⟩

/-- the numeral that is too large and the words for special values are reached, the number is not; a name with a blank
inside is reached as a destination only -/
theorem names_reached_numerals : (∀ name ∈ ["1e39", "inf", "nan"], ReachedAsOperand numerals name) ∧
    ¬ReachedAsOperand numerals "1e3" ∧ ¬ReachedAsDestination numerals "1e3" ∧
    ReachedAsDestination numerals "1 e3" ∧ ¬ReachedAsOperand numerals "1 e3" := by
  have hwords : ∀ name ∈ ["1e39", "inf", "nan"], (numerals.get? name).isSome = true ∧ name ≠ "" ∧
      Text.Word name.toList ∧ Single.readFinite name.toList = none := by
    decide +kernel
  obtain ⟨number, hnumber⟩ : ∃ item, numerals.get? "1e3" = some item := Option.isSome_iff_exists.1 (by decide +kernel)
  obtain ⟨gap, hgap⟩ : ∃ item, numerals.get? "1 e3" = some item := Option.isSome_iff_exists.1 (by decide +kernel)
  have hliteral : ¬∀ x, ¬Single.Literal "1e3".toList x := by
    rw [← Single.readFinite_eq_none]
    decide +kernel
  refine ⟨?_, ?_, ?_, ?_, ?_⟩
  · intro name hname
    obtain ⟨hsome, hne, hword, hnone⟩ := hwords name hname
    obtain ⟨item, hitem⟩ := Option.isSome_iff_exists.1 hsome
    exact (names_reached hitem).1.2 ⟨⟨hne, hword.visible⟩, Single.readFinite_eq_none.1 hnone⟩
  · exact fun hreached => hliteral ((names_reached hnumber).1.1 hreached).2
  · exact fun hreached => hliteral ((names_reached hnumber).2.1.1 hreached).2
  · exact (names_reached hgap).2.1.2
      ⟨⟨by decide, by decide, by decide⟩, Single.readFinite_eq_none.1 (by decide +kernel)⟩
  · exact fun hreached => absurd (((names_reached hgap).1.1 hreached).1.2 ' ' (by decide)) (by decide)

end ArrayEngine.Command
