/-
Which texts are calls.

`Expression` is the grammar of calls as texts, with the call: the name of a routine between blanks, a parenthesis, the
arguments with commas between them and blanks around each, the closing parenthesis, and behind it blanks, semicolons and
blanks. The arguments are the sizes of the call in order, each with a `u` behind it, and its factor if it has one.
- `readSizeArgument_eq_some`, `ofArguments_eq_some`: arguments are read as what they stand for;
- `readChars_eq_some`: a text is read as a call exactly if it is an expression of it. An argument has no comma and no
  blank (`Bare`), so cutting at commas and trimming gives back the arguments;
- `expression_renderChars`: what is written for a call is one of its expressions, so `readChars_renderChars`: a call is
  read back, its factor too if that is a number;
- `read_expression`: so a call that was read has the values that stand in the text, and is read back.
-/
import ArrayEngine.Proofs.Cutting
import ArrayEngine.Proofs.Literals
import ArrayEngine.Shader.Call

namespace ArrayEngine

/-! ## Arguments without blanks and commas -/

/-- characters of numbers are neither blank nor separators -/
theorem isNumeral_visible {c : Char} (h : isNumeral c = true) : Text.isBlank c = false ∧ c ≠ ',' ∧ c ≠ ';' := by
  by_cases hd : c.isDigit = true
  · obtain ⟨hlo, hhi⟩ := Char.isDigit_iff_toNat.1 hd
    have h0 : '0'.toNat = 48 := rfl
    have h9 : '9'.toNat = 57 := rfl
    refine ⟨?_, ne_of_isDigit hd rfl, ne_of_isDigit hd rfl⟩
    simp [Text.isBlank, Text.blankRanges]
    omega
  · simp only [isNumeral, hd, Bool.false_or, decide_eq_true_eq] at h
    fin_cases h <;> decide

/-- a text without a blank and without a comma -/
def Text.Bare (cs : List Char) : Prop := ∀ c ∈ cs, isBlank c = false ∧ c ≠ ','

instance (cs : List Char) : Decidable (Text.Bare cs) :=
  decidable_of_iff (cs.all (fun c => !Text.isBlank c && c != ',') = true) (by simp [Text.Bare])

namespace Text.Bare

variable {cs ds : List Char}

theorem append (hc : Bare cs) (hd : Bare ds) : Bare (cs ++ ds) := List.forall_mem_append.2 ⟨hc, hd⟩

theorem of_digits (h : Digits cs) : Bare cs := by
  intro c hc
  obtain ⟨hblank, hcomma, -⟩ := isNumeral_visible (isNumeral_of_isDigit (h c hc))
  exact ⟨hblank, hcomma⟩

theorem tight (h : Bare cs) : Tight cs := tight_of_visible fun c hc => (h c hc).1

theorem noComma (h : Bare cs) : ',' ∉ cs := fun hc => (h ',' hc).2 rfl

end Text.Bare

open Text (Bare)

/-- neither a blank nor a comma has a lower case -/
theorem toLower_of_not_bare {c : Char} (h : Text.isBlank c = true ∨ c = ',') : c.toLower = c := by
  rcases h with h | rfl
  · refine dif_neg fun hc => ?_
    have hlo : 'A'.toNat ≤ c.toNat := hc.1
    have hhi : c.toNat ≤ 'Z'.toNat := hc.2
    have hA : 'A'.toNat = 65 := rfl
    have hZ : 'Z'.toNat = 90 := rfl
    simp [Text.isBlank, Text.blankRanges] at h
    omega
  · rfl

namespace Single

variable {cs : List Char}

theorem SignText.bare {negative : Bool} (h : SignText cs negative) : Bare cs := by
  cases h with
  | none => nofun
  | plus => decide
  | minus => decide

theorem ExponentText.bare {e : Int} (h : ExponentText cs e) : Bare cs := by
  cases h with
  | absent => nofun
  | present hc h =>
    obtain ⟨hsign, hds, -⟩ := h
    refine List.forall_mem_cons.2 ⟨?_, hsign.bare.append (.of_digits hds)⟩
    rcases hc with rfl | rfl <;> decide

theorem DecimalText.bare {d : Decimal} (h : DecimalText cs d) : Bare cs := by
  obtain ⟨hwhole, hfraction, hpoint, -, hexponent⟩ := h
  rename_i whole point fraction exponent e
  have hdot : Bare point := by
    rcases hpoint with rfl | ⟨rfl, -⟩
    · decide
    · nofun
  exact (((Bare.of_digits hwhole).append hdot).append (.of_digits hfraction)).append hexponent.bare

theorem SpecialText.bare {m : Nat} (h : SpecialText cs m) : Bare cs := by
  have hletters : Bare (cs.map Char.toLower) := by
    rcases h with (h | h) | h <;> rw [h] <;> simp only [String.reduceToList] <;> decide
  intro c hc
  have hlower := hletters c.toLower (List.mem_map_of_mem hc)
  by_cases hbare : Text.isBlank c = true ∨ c = ','
  · rwa [toLower_of_not_bare hbare] at hlower
  · obtain ⟨hblank, hcomma⟩ := not_or.1 hbare
    exact ⟨Bool.eq_false_iff.2 hblank, hcomma⟩

theorem NumberText.bare {x : Single} (h : NumberText cs x) : Bare cs := by
  cases h with
  | decimal hsign hbody => exact hsign.bare.append hbody.bare
  | special hsign hword => exact hsign.bare.append hword.bare

end Single

namespace Shader.Call

/-! ## What a call is made of -/

/-- the offsets and sizes of a call, in the order of its arguments -/
def sizes : Call → List Nat
  | scale dest src len _ => [dest, src, len]
  | product dest matrix vector rows cols => [dest, matrix, vector, rows, cols]
  | add dest lhs rhs len => [dest, lhs, rhs, len]

/-- the factor of a call, if it has one -/
def factor? : Call → Option Single
  | scale _ _ _ factor => some factor
  | _ => none

theorem arguments_eq (c : Call) :
    c.arguments = c.sizes.map sizeArgument ++ c.factor?.toList.map (Single.write .literal) := by
  cases c <;> rfl

/-- whether the offsets and sizes of a call can be written -/
def Sized (c : Call) : Prop := ∀ n ∈ c.sizes, n < Size.bound

instance (c : Call) : Decidable c.Sized := inferInstanceAs (Decidable (∀ n ∈ c.sizes, n < Size.bound))

/-- a call that is read back as it is: its sizes are sizes, and its factor is a number -/
structure Writable (c : Call) : Prop where
  sized : c.Sized
  number : ∀ x ∈ c.factor?, x.isNaN = false

/-- a call as it is read back, that is with the factor that is read back -/
def readBack : Call → Call
  | scale dest src len factor => scale dest src len factor.readBack
  | c => c

theorem Writable.readBack_eq {c : Call} (h : c.Writable) : c.readBack = c := by
  cases c with
  | scale dest src len factor => rw [readBack, Single.readBack_of_number (h.number factor rfl)]
  | product => rfl
  | add => rfl

/-! ## The grammar of calls -/

/-- a size as an argument -/
inductive SizeArgument : List Char → Nat → Prop
  | mk {cs : List Char} {n : Nat} (h : Size.Numeral cs n) : SizeArgument (cs ++ ['u']) n

/-- the texts of the arguments of a call: its sizes in order, and its factor if it has one -/
inductive Arguments (c : Call) : List (List Char) → Prop
  | mk {sizes factor : List (List Char)} (hsizes : List.Forall₂ SizeArgument sizes c.sizes)
      (hfactor : List.Forall₂ Single.NumberText factor c.factor?.toList) : Arguments c (sizes ++ factor)

/-- a call as a text -/
inductive Expression : List Char → Call → Prop
  | mk {c : Call} {name tail semicolons after : List Char} {args pieces : List (List Char)}
      (hname : Text.Padded c.routine.toList name) (hargs : c.Arguments args)
      (hpieces : List.Forall₂ Text.Padded args pieces) (htail : Text.Blanks tail)
      (hsemicolons : ∀ ch ∈ semicolons, ch = ';') (hafter : Text.Blanks after) :
    Expression (name ++ '(' :: [','].intercalate pieces ++ ')' :: (tail ++ semicolons ++ after)) c

/-! ## Arguments -/

theorem readSizeArgument_eq_some {cs : List Char} {n : Nat} : readSizeArgument cs = some n ↔ SizeArgument cs n := by
  rw [readSizeArgument, Option.bind_eq_some_iff]
  constructor
  · intro h
    obtain ⟨ds, hcut, hread⟩ := h
    rw [Text.dropLast?_eq_some.1 hcut]
    exact .mk (Size.read_eq_some.1 hread)
  · intro h
    obtain ⟨h⟩ := h
    exact ⟨_, Text.dropLast?_append 'u' _, Size.read_eq_some.2 h⟩

/-- arguments are read as the call that they stand for -/
theorem ofArguments_eq_some {routine : List Char} {args : List (List Char)} {c : Call} :
    ofArguments routine args = some c ↔ c.routine.toList = routine ∧ c.Arguments args := by
  constructor
  · intro h
    unfold ofArguments at h
    split_ifs at h with hscale hproduct hadd
    · split at h
      · simp only [Option.bind_eq_bind, Option.bind_eq_some_iff, Option.pure_def, Option.some.injEq,
          readSizeArgument_eq_some, Single.read_eq_some] at h
        obtain ⟨dest, hdest, src, hsrc, len, hlen, factor, hfactor, rfl⟩ := h
        have hargs := Arguments.mk (c := scale dest src len factor) (.cons hdest (.cons hsrc (.cons hlen .nil)))
          (.cons hfactor .nil)
        exact ⟨hscale.symm, hargs⟩
      · cases h
    · split at h
      · simp only [Option.bind_eq_bind, Option.bind_eq_some_iff, Option.pure_def, Option.some.injEq,
          readSizeArgument_eq_some] at h
        obtain ⟨dest, hdest, matrix, hmatrix, vector, hvector, rows, hrows, cols, hcols, rfl⟩ := h
        have hargs := Arguments.mk (c := product dest matrix vector rows cols)
          (.cons hdest (.cons hmatrix (.cons hvector (.cons hrows (.cons hcols .nil))))) .nil
        exact ⟨hproduct.symm, hargs⟩
      · cases h
    · split at h
      · simp only [Option.bind_eq_bind, Option.bind_eq_some_iff, Option.pure_def, Option.some.injEq,
          readSizeArgument_eq_some] at h
        obtain ⟨dest, hdest, lhs, hlhs, rhs, hrhs, len, hlen, rfl⟩ := h
        have hargs := Arguments.mk (c := add dest lhs rhs len)
          (.cons hdest (.cons hlhs (.cons hrhs (.cons hlen .nil)))) .nil
        exact ⟨hadd.symm, hargs⟩
      · cases h
  · intro h
    obtain ⟨rfl, hargs⟩ := h
    obtain ⟨hsizes, hfactor⟩ := hargs
    cases c with
    | scale dest src len factor =>
      simp only [sizes, factor?, Option.toList_some, List.forall₂_cons_right_iff, List.forall₂_nil_right_iff,
        ← readSizeArgument_eq_some, ← Single.read_eq_some] at hsizes hfactor
      obtain ⟨_, _, hdest, ⟨_, _, hsrc, ⟨_, _, hlen, rfl, rfl⟩, rfl⟩, rfl⟩ := hsizes
      obtain ⟨_, _, hfactor, rfl, rfl⟩ := hfactor
      simp [ofArguments, routine, hdest, hsrc, hlen, hfactor]
    | product dest matrix vector rows cols =>
      simp only [sizes, factor?, Option.toList_none, List.forall₂_cons_right_iff, List.forall₂_nil_right_iff,
        ← readSizeArgument_eq_some] at hsizes hfactor
      obtain ⟨_, _, hdest, ⟨_, _, hmatrix, ⟨_, _, hvector, ⟨_, _, hrows, ⟨_, _, hcols, rfl, rfl⟩, rfl⟩, rfl⟩, rfl⟩,
        rfl⟩ := hsizes
      subst hfactor
      simp [ofArguments, routine, hdest, hmatrix, hvector, hrows, hcols]
    | add dest lhs rhs len =>
      simp only [sizes, factor?, Option.toList_none, List.forall₂_cons_right_iff, List.forall₂_nil_right_iff,
        ← readSizeArgument_eq_some] at hsizes hfactor
      obtain ⟨_, _, hdest, ⟨_, _, hlhs, ⟨_, _, hrhs, ⟨_, _, hlen, rfl, rfl⟩, rfl⟩, rfl⟩, rfl⟩ := hsizes
      subst hfactor
      simp [ofArguments, routine, hdest, hlhs, hrhs, hlen]

theorem SizeArgument.bare {cs : List Char} {n : Nat} (h : SizeArgument cs n) : Bare cs := by
  obtain ⟨hplus, hds, -, -⟩ := h
  refine Bare.append (Bare.append ?_ (.of_digits hds)) (by decide)
  rcases hplus with rfl | rfl
  · nofun
  · decide

theorem Arguments.bare {c : Call} {args : List (List Char)} (h : c.Arguments args) : ∀ arg ∈ args, Bare arg := by
  obtain ⟨hsizes, hfactor⟩ := h
  have hsizes := hsizes.imp fun _ _ hn => And.intro hn.bare hn
  have hfactor := hfactor.imp fun _ _ hx => And.intro hx.bare hx
  exact List.forall_mem_append.2 ⟨((List.forall₂_and_left _ _).1 hsizes).1, ((List.forall₂_and_left _ _).1 hfactor).1⟩

theorem Arguments.ne_nil {c : Call} {args : List (List Char)} (h : c.Arguments args) : args ≠ [] := by
  obtain ⟨hsizes, -⟩ := h
  intro hnil
  obtain ⟨rfl, -⟩ := List.append_eq_nil_iff.1 hnil
  have hnone := List.forall₂_nil_left_iff.1 hsizes
  cases c <;> cases hnone

/-- the sizes that stand in a text can be written -/
theorem Arguments.sized {c : Call} {args : List (List Char)} (h : c.Arguments args) : c.Sized := by
  obtain ⟨hsizes, -⟩ := h
  have hbound : ∀ cs n, SizeArgument cs n → n < Size.bound := by
    intro cs n hn
    obtain ⟨-, -, -, hbound⟩ := hn
    exact hbound
  have hflip := (hsizes.imp fun cs n hn => And.intro (hbound cs n hn) hn).flip
  exact ((List.forall₂_and_left _ _).1 hflip).1

/-! ## Expressions -/

theorem routine_visible (c : Call) : ∀ ch ∈ c.routine.toList, Text.isBlank ch = false ∧ ch ≠ '(' ∧ ch ≠ ';' := by
  have hall : (c.routine.toList.all fun ch => !Text.isBlank ch && ch != '(' && ch != ';') = true := by
    cases c <;> simp only [routine, String.reduceToList] <;> decide
  intro ch hch
  simpa [and_assoc] using List.all_eq_true.1 hall ch hch

/-- arguments that stand between blanks have no comma in them, and are trimmed to themselves -/
theorem map_trim_pieces {args pieces : List (List Char)} (h : List.Forall₂ Text.Padded args pieces)
    (hbare : ∀ arg ∈ args, Bare arg) : (∀ piece ∈ pieces, ',' ∉ piece) ∧ pieces.map Text.trim = args := by
  induction h with
  | nil => exact ⟨nofun, rfl⟩
  | cons hpiece _ ih =>
    obtain ⟨harg, hargs⟩ := List.forall_mem_cons.1 hbare
    obtain ⟨hcommas, hmap⟩ := ih hargs
    have hcomma := (hpiece.not_mem_iff (by decide)).2 harg.noComma
    refine ⟨List.forall_mem_cons.2 ⟨hcomma, hcommas⟩, ?_⟩
    rw [List.map_cons, Text.trim_of_padded hpiece harg.tight, hmap]

/-- the arguments of a call are cut apart at the commas between them -/
theorem Arguments.splitOn_pieces {c : Call} {args pieces : List (List Char)} (hargs : c.Arguments args)
    (h : List.Forall₂ Text.Padded args pieces) : (([','].intercalate pieces).splitOn ',').map Text.trim = args := by
  obtain ⟨hcommas, hmap⟩ := map_trim_pieces h hargs.bare
  have hne : pieces ≠ [] := by
    rintro rfl
    exact hargs.ne_nil hmap.symm
  rw [List.splitOn_intercalate ',' hcommas hne, hmap]

/-- the ends that are cut from a text: blanks in front, and blanks, semicolons and blanks behind -/
theorem exists_ends (cs : List Char) : ∃ before tail semicolons after, Text.Blanks before ∧ Text.Blanks tail ∧
    (∀ ch ∈ semicolons, ch = ';') ∧ Text.Blanks after ∧
    cs = before ++ Text.trimEnd (Text.trimEndOf (· == ';') (Text.trim cs)) ++ (tail ++ semicolons ++ after) := by
  obtain ⟨semicolons, hsemicolons, htrim, -⟩ := Text.exists_trimEndOf (· == ';') (Text.trim cs)
  obtain ⟨tail, htail, hcut, -⟩ := Text.exists_trimEndOf Text.isBlank (Text.trimEndOf (· == ';') (Text.trim cs))
  generalize htrimmed : Text.trim cs = trimmed at *
  obtain ⟨-, hpadded⟩ := Text.trim_eq_iff.1 htrimmed
  obtain ⟨hbefore, hafter⟩ := hpadded
  rename_i before after
  refine ⟨before, tail, semicolons, after, hbefore, htail, fun ch hch => beq_iff_eq.1 (hsemicolons ch hch), hafter, ?_⟩
  rw [← Text.trimEnd] at hcut
  calc before ++ trimmed ++ after
      = before ++ (Text.trimEnd (Text.trimEndOf (· == ';') trimmed) ++ tail ++ semicolons) ++ after := by
        rw [← hcut, ← htrim]
    _ = before ++ Text.trimEnd (Text.trimEndOf (· == ';') trimmed) ++ (tail ++ semicolons ++ after) := by simp

/-- blanks behind a parenthesis end in no semicolon -/
theorem getLast_append_blanks {core tail : List Char} (hlast : core.getLast? = some ')') (htail : Text.Blanks tail) :
    ∀ ch ∈ (core ++ tail).getLast?, (ch == ';') = false := by
  intro ch hch
  rw [List.getLast?_append, hlast] at hch
  cases hend : tail.getLast? with
  | none =>
    rw [hend] at hch
    cases hch
    rfl
  | some blank =>
    rw [hend] at hch
    cases hch
    refine beq_eq_false_iff_ne.2 ?_
    rintro rfl
    exact htail.not_mem (by decide) (List.mem_of_mem_getLast? hend)

/-- the ends are cut, up to the parenthesis that closes the expression -/
theorem cut_ends {before core tail semicolons after : List Char} (hbefore : Text.Blanks before)
    (hcore : Text.Tight core) (hlast : core.getLast? = some ')') (htail : Text.Blanks tail)
    (hsemicolons : ∀ ch ∈ semicolons, ch = ';') (hafter : Text.Blanks after) :
    Text.trimEnd (Text.trimEndOf (· == ';') (Text.trim (before ++ core ++ (tail ++ semicolons ++ after)))) = core := by
  have htrimEnd : Text.trimEnd core = core := Text.trimEndOf_of_getLast hcore.2
  by_cases hnone : semicolons = []
  · have hpadded : Text.Padded core (before ++ core ++ (tail ++ semicolons ++ after)) := by
      rw [hnone, List.append_nil]
      exact .mk hbefore (List.forall_mem_append.2 ⟨htail, hafter⟩)
    have hstop := getLast_append_blanks hlast Text.blanks_nil
    rw [List.append_nil] at hstop
    rw [Text.trim_of_padded hpadded hcore, Text.trimEndOf_of_getLast hstop, htrimEnd]
  · -- what is trimmed first ends in a semicolon, and the blanks before the semicolons are trimmed last
    have hpadded : Text.Padded (core ++ tail ++ semicolons) (before ++ core ++ (tail ++ semicolons ++ after)) := by
      have hassoc : before ++ core ++ (tail ++ semicolons ++ after) =
          before ++ (core ++ tail ++ semicolons) ++ after := by simp
      rw [hassoc]
      exact .mk hbefore hafter
    have htight : Text.Tight (core ++ tail ++ semicolons) := by
      have hne : core ≠ [] := fun hnil => by simp [hnil] at hlast
      refine ⟨?_, ?_⟩
      · rw [List.append_assoc, List.head?_append_of_ne_nil _ hne]
        exact hcore.1
      · intro ch hch
        rw [List.getLast?_append_of_ne_nil _ hnone] at hch
        rw [hsemicolons ch (List.mem_of_mem_getLast? hch)]
        rfl
    have hrun : ∀ ch ∈ semicolons, (ch == ';') = true := fun ch hch => beq_iff_eq.2 (hsemicolons ch hch)
    rw [Text.trim_of_padded hpadded htight, Text.trimEndOf_append hrun,
      Text.trimEndOf_of_getLast (getLast_append_blanks hlast htail), Text.trimEnd, Text.trimEndOf_append htail,
      ← Text.trimEnd, htrimEnd]

/-- between its ends an expression starts with the name of a routine and ends in a parenthesis -/
theorem tight_expression (c : Call) (gap inner : List Char) :
    Text.Tight (c.routine.toList ++ gap ++ '(' :: inner ++ [')']) := by
  have hne : c.routine.toList ≠ [] := by cases c <;> simp [routine]
  refine ⟨?_, ?_⟩
  · intro ch hch
    simp only [List.append_assoc, List.head?_append_of_ne_nil _ hne] at hch
    exact (routine_visible c ch (List.mem_of_mem_head? hch)).1
  · intro ch hch
    rw [List.getLast?_concat] at hch
    cases hch
    decide

theorem expression_of_readChars {cs : List Char} {c : Call} (h : readChars cs = some c) : Expression cs c := by
  simp only [readChars, Option.bind_eq_bind, Option.bind_eq_some_iff, Prod.exists] at h
  obtain ⟨left, right, hsplit, inner, hclose, hcall⟩ := h
  obtain ⟨-, hcore⟩ := Text.splitFirst_eq_some.1 hsplit
  rw [Text.dropLast?_eq_some.1 hclose] at hcore
  obtain ⟨hroutine, hargs⟩ := ofArguments_eq_some.1 hcall
  obtain ⟨before, tail, semicolons, after, hbefore, htail, hsemicolons, hafter, hends⟩ := exists_ends cs
  have hname : Text.Padded c.routine.toList (before ++ left) := by
    rw [hroutine]
    exact (Text.padded_trim left).append_left hbefore
  have hpieces : List.Forall₂ Text.Padded ((inner.splitOn ',').map Text.trim) (inner.splitOn ',') :=
    List.forall₂_map_left_iff.2 (List.forall₂_same.2 fun piece _ => Text.padded_trim piece)
  have hexpression := Expression.mk hname hargs hpieces htail hsemicolons hafter
  rw [List.intercalate_splitOn] at hexpression
  rw [hends, hcore]
  simpa using hexpression

theorem Expression.readChars {cs : List Char} {c : Call} (h : Expression cs c) : readChars cs = some c := by
  obtain ⟨hname, hargs, hpieces, htail, hsemicolons, hafter⟩ := h
  rename_i name tail semicolons after args pieces
  have hroutine := routine_visible c
  have htight : Text.Tight c.routine.toList := Text.tight_of_visible fun ch hch => (hroutine ch hch).1
  obtain ⟨hbefore, hgap⟩ := hname
  rename_i before gap
  have hinner := hargs.splitOn_pieces hpieces
  generalize [','].intercalate pieces = inner at hinner
  -- the blanks in front of the name are cut with the ends, those behind it are trimmed from the name
  have hcut := cut_ends hbefore (tight_expression c gap inner) List.getLast?_concat htail hsemicolons hafter
  have hends : before ++ c.routine.toList ++ gap ++ '(' :: inner ++ ')' :: (tail ++ semicolons ++ after) =
      before ++ (c.routine.toList ++ gap ++ '(' :: inner ++ [')']) ++ (tail ++ semicolons ++ after) := by simp
  have hopen : '(' ∉ c.routine.toList ++ gap := by
    intro hmem
    rcases List.mem_append.1 hmem with hmem | hmem
    · exact (hroutine _ hmem).2.1 rfl
    · exact hgap.not_mem (by decide) hmem
  have hsplit : Text.splitFirst '(' (c.routine.toList ++ gap ++ '(' :: inner ++ [')']) =
      some (c.routine.toList ++ gap, inner ++ [')']) := by
    rw [List.append_assoc, List.cons_append]
    exact Text.splitFirst_append hopen _
  have htrim : Text.trim (c.routine.toList ++ gap) = c.routine.toList :=
    Text.trim_of_padded (.mk Text.blanks_nil hgap) htight
  have hcall : ofArguments c.routine.toList args = some c := ofArguments_eq_some.2 ⟨rfl, hargs⟩
  rw [hends]
  simp only [Call.readChars, hcut, hsplit, Text.dropLast?_append, htrim, hinner, hcall, Option.bind_eq_bind,
    Option.bind_some]

/-- **What is a call.** A text is read as a call exactly if it is an expression of it. -/
theorem readChars_eq_some {cs : List Char} {c : Call} : readChars cs = some c ↔ Expression cs c :=
  ⟨expression_of_readChars, Expression.readChars⟩

theorem Expression.sized {cs : List Char} {c : Call} (h : Expression cs c) : c.Sized := by
  obtain ⟨-, hargs, -, -, -, -⟩ := h
  exact hargs.sized

/-! ## Calls that are written -/

theorem sizes_readBack (c : Call) : c.readBack.sizes = c.sizes := by cases c <;> rfl

theorem factor?_readBack (c : Call) : c.readBack.factor? = c.factor?.map Single.readBack := by cases c <;> rfl

/-- arguments are written so that they stand for what is read back -/
theorem arguments_arguments {c : Call} (h : c.Sized) : c.readBack.Arguments c.arguments := by
  rw [arguments_eq]
  refine .mk ?_ ?_
  · rw [sizes_readBack, List.forall₂_map_left_iff, List.forall₂_same]
    intro n hn
    exact .mk (Size.read_eq_some.1 (Size.read_write (h n hn)))
  · rw [factor?_readBack, Option.toList_map, List.forall₂_map_left_iff, List.forall₂_map_right_iff, List.forall₂_same]
    intro x _
    exact Single.read_eq_some.1 (Single.read_write_literal x)

/-- a comma and a blank between arguments is a comma, and a blank before every argument but the first -/
theorem intercalate_comma (arg : List Char) (args : List (List Char)) :
    [',', ' '].intercalate (arg :: args) = [','].intercalate (arg :: args.map ([' '] ++ ·)) := by
  rw [Text.intercalate_cons, Text.intercalate_cons, List.flatMap_map]
  rfl

/-- **What is written is an expression**, of the call that is read back. -/
theorem expression_renderChars {c : Call} (h : c.Sized) : Expression c.renderChars c.readBack := by
  have hroutine : c.readBack.routine = c.routine := by cases c <;> rfl
  have hargs := arguments_arguments h
  obtain ⟨arg, args, hcons⟩ := List.exists_cons_of_ne_nil hargs.ne_nil
  have hpieces : List.Forall₂ Text.Padded (arg :: args) (arg :: args.map ([' '] ++ ·)) := by
    refine .cons (Text.padded_self arg) ?_
    rw [List.forall₂_map_right_iff, List.forall₂_same]
    exact fun next _ => (Text.padded_self next).append_left (by decide)
  rw [hcons] at hargs
  have hnone : ∀ ch ∈ ([] : List Char), ch = ';' := nofun
  have hexpression := Expression.mk (Text.padded_self _) hargs hpieces Text.blanks_nil hnone Text.blanks_nil
  rw [hroutine, ← intercalate_comma, ← hcons] at hexpression
  simpa [renderChars] using hexpression

/-- a call is read back from its expression -/
theorem readChars_renderChars {c : Call} (h : c.Sized) : readChars c.renderChars = some c.readBack :=
  (expression_renderChars h).readChars

/-- an expression starts with the name of a routine and ends in a parenthesis -/
theorem tight_renderChars (c : Call) : Text.Tight c.renderChars := by
  have htight := tight_expression c [] ([',', ' '].intercalate c.arguments)
  rwa [List.append_nil] at htight

theorem isNumeral_of_mem_sizeArgument {n : Nat} {c : Char} (h : c ∈ sizeArgument n) : isNumeral c = true := by
  rcases List.mem_append.1 h with h | h
  · exact isNumeral_of_isDigit (digits_toDigits n c h)
  · rw [List.mem_singleton.1 h]
    rfl

/-- every argument is a text of characters of numbers -/
theorem isNumeral_of_mem_argument (c : Call) : ∀ arg ∈ c.arguments, ∀ ch ∈ arg, isNumeral ch = true := by
  intro arg harg ch hch
  rw [arguments_eq] at harg
  rcases List.mem_append.1 harg with harg | harg
  · obtain ⟨n, -, rfl⟩ := List.mem_map.1 harg
    exact isNumeral_of_mem_sizeArgument hch
  · obtain ⟨x, -, rfl⟩ := List.mem_map.1 harg
    exact Single.isNumeral_of_mem_write hch

theorem mem_intercalate {sep : List Char} {pieces : List (List Char)} {ch : Char} (h : ch ∈ sep.intercalate pieces) :
    ch ∈ sep ∨ ∃ piece ∈ pieces, ch ∈ piece := by
  cases pieces with
  | nil => cases h
  | cons piece rest =>
    rw [Text.intercalate_cons] at h
    rcases List.mem_append.1 h with h | h
    · exact .inr ⟨piece, List.mem_cons_self, h⟩
    · obtain ⟨q, hq, hch⟩ := List.mem_flatMap.1 h
      rcases List.mem_append.1 hch with hch | hch
      · exact .inl hch
      · exact .inr ⟨q, List.mem_cons_of_mem piece hq, hch⟩

theorem not_mem_renderChars (c : Call) : ';' ∉ c.renderChars := by
  intro hmem
  rcases List.mem_append.1 hmem with hmem | hmem
  · rcases List.mem_append.1 hmem with hmem | hmem
    · exact (routine_visible c _ hmem).2.2 rfl
    · rcases List.mem_cons.1 hmem with hmem | hmem
      · exact absurd hmem (by decide)
      · rcases mem_intercalate hmem with hmem | ⟨arg, harg, hmem⟩
        · exact absurd hmem (by decide)
        · exact (isNumeral_visible (isNumeral_of_mem_argument c arg harg _ hmem)).2.2 rfl
  · exact absurd hmem (by decide)

/-! ## Reading again -/

/-- one call, or two that differ only in the patterns of their factors, which are no numbers -/
inductive Same : Call → Call → Prop
  | refl (c : Call) : Same c c
  | factor {dest src len : Nat} {x y : Single} (hx : x.isNaN = true) (hy : y.isNaN = true) :
    Same (scale dest src len x) (scale dest src len y)

theorem same_readBack (c : Call) : c.readBack.Same c := by
  cases c with
  | scale dest src len factor =>
    cases hnan : factor.isNaN with
    | true =>
      have hquiet : factor.readBack.isNaN = true := by
        simp only [Single.readBack, hnan, if_true]
        decide
      exact .factor hquiet hnan
    | false =>
      rw [readBack, Single.readBack_of_number hnan]
      exact .refl _
  | product => exact .refl _
  | add => exact .refl _

theorem Same.eq_of_number {c c' : Call} (h : c'.Same c) (hnumber : ∀ x ∈ c.factor?, x.isNaN = false) : c' = c := by
  cases h with
  | refl => rfl
  | factor _ hnan => exact absurd hnan (Bool.eq_false_iff.1 (hnumber _ rfl))

/-- **Reading calls.** What is read as a call are its expressions and no other texts, so the call that a text is read as
has the values that stand in it. Written and read again it is the same call, with the same factor if that is a number. -/
theorem read_expression (s : String) : (∀ c, read s = some c ↔ Expression s.toList c) ∧
    ∀ c, read s = some c → ∃ again, read c.render = some again ∧ again.Same c ∧
      ((∀ x ∈ c.factor?, x.isNaN = false) → again = c) := by
  refine ⟨fun c => readChars_eq_some, ?_⟩
  intro c hread
  have hsized : c.Sized := (readChars_eq_some.1 hread).sized
  refine ⟨c.readBack, ?_, same_readBack c, (same_readBack c).eq_of_number⟩
  rw [read, render, String.toList_ofList]
  exact readChars_renderChars hsized

/-- Blanks, signs and semicolons are left out of what is written; a missing argument, or a sign that is a minus, makes a
text no expression. -/
theorem read_expression_loose :
    Expression " addVectors ( +8u,0u , 4u,\t4u ) ;; ".toList (add 8 0 4 4) ∧
    read (add 8 0 4 4).render = some (add 8 0 4 4) ∧
    (∀ c, ¬Expression "addVectors(8u, 0u, 4u)".toList c) ∧ ∀ c, ¬Expression "addVectors(8u, -0u, 4u, 4u)".toList c := by
  have hread : read " addVectors ( +8u,0u , 4u,\t4u ) ;; " = some (add 8 0 4 4) := by decide +kernel
  have hshort : read "addVectors(8u, 0u, 4u)" = none := by decide +kernel
  have hminus : read "addVectors(8u, -0u, 4u, 4u)" = none := by decide +kernel
  refine ⟨((read_expression _).1 _).1 hread, ?_, ?_, ?_⟩
  · obtain ⟨again, hagain, -, hsame⟩ := (read_expression _).2 _ hread
    rwa [hsame nofun] at hagain
  · intro c hc
    have hsome := ((read_expression _).1 c).2 hc
    rw [hshort] at hsome
    cases hsome
  · intro c hc
    have hsome := ((read_expression _).1 c).2 hc
    rw [hminus] at hsome
    cases hsome

end Shader.Call

end ArrayEngine
