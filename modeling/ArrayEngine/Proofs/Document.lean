/-
Shader documents are read back as what they were written from.

- `readLocalSize_render`, `mainStatements_render`: the local size and the statements of `main` are found in a document.
  Nothing before them looks like them, whatever the local size is: the fixed parts of the document are checked for that
  (`Text.absent`), and digits start no name;
- `parse_render`: so a device parses a document into the local size and the calls that it was rendered from;
- `compile_render`: and it accepts every document that is rendered, also one whose factors are no numbers.
-/
import ArrayEngine.Device.Host
import ArrayEngine.Proofs.Expressions
import ArrayEngine.Proofs.Outcome

namespace ArrayEngine

namespace Text

/-! ## Searching -/

/-- whether a text differs from a pattern at some place that both have -/
def differs : List Char → List Char → Bool
  | p :: ps, c :: cs => p != c || differs ps cs
  | _, _ => false

/-- whether a pattern starts nowhere in a text, whatever follows the text -/
def absent (pattern : List Char) : List Char → Bool
  | [] => true
  | c :: cs => differs pattern (c :: cs) && absent pattern cs

theorem isPrefixOf_of_differs {pattern cs : List Char} (h : differs pattern cs = true) (rest : List Char) :
    pattern.isPrefixOf (cs ++ rest) = false := by
  induction pattern generalizing cs with
  | nil => cases h
  | cons p ps ih =>
    cases cs with
    | nil => cases h
    | cons c cs =>
      rw [List.cons_append, List.isPrefixOf_cons_cons]
      rcases Bool.or_eq_true_iff.1 h with hne | hrest
      · rw [beq_eq_false_iff_ne.2 (bne_iff_ne.1 hne), Bool.false_and]
      · rw [ih hrest, Bool.and_false]

/-- the search goes on behind a text in which the pattern is absent -/
theorem afterFirst_append {pattern cs : List Char} (h : absent pattern cs = true) (rest : List Char) :
    afterFirst pattern (cs ++ rest) = afterFirst pattern rest := by
  induction cs with
  | nil => rfl
  | cons c cs ih =>
    obtain ⟨hc, hcs⟩ := Bool.and_eq_true_iff.1 h
    have hno := isPrefixOf_of_differs hc rest
    rw [List.cons_append] at hno ⊢
    rw [afterFirst, hno]
    exact ih hcs

theorem absent_of_ne {p : Char} {ps cs : List Char} (h : ∀ c ∈ cs, p ≠ c) : absent (p :: ps) cs = true := by
  induction cs with
  | nil => rfl
  | cons c cs ih =>
    have hc : differs (p :: ps) (c :: cs) = true := Bool.or_eq_true_iff.2 (.inl (bne_iff_ne.2 (h c List.mem_cons_self)))
    rw [absent, hc, Bool.true_and]
    exact ih fun d hd => h d (List.mem_cons_of_mem c hd)

end Text

/-! ## Documents -/

namespace Shader

/-- the lines of `main` -/
def body (calls : List Call) : List Char := calls.flatMap fun c => "    ".toList ++ c.renderChars ++ ";\n".toList

theorem toList_localSizeDeclaration (localSize : Nat) : (localSizeDeclaration localSize).toList =
    "layout(local_size_x = ".toList ++
      (Size.write localSize ++ ", local_size_y = 1, local_size_z = 1) in;".toList) := by
  have hsize : (toString localSize).toList = Size.write localSize := Nat.toList_repr
  change ("layout(local_size_x = " ++ toString localSize ++ ", local_size_y = 1, local_size_z = 1) in;").toList = _
  simp only [String.toList_append, hsize, List.append_assoc]

theorem toList_render (localSize : Nat) (calls : List Call) :
    (render localSize calls).toList = version.toList ++ ("\n\n".toList ++ ("layout(local_size_x = ".toList ++
      (Size.write localSize ++ (", local_size_y = 1, local_size_z = 1) in;".toList ++ ("\n\n".toList ++
        (storageBlock.toList ++ ("\n\n".toList ++ (library.toList ++ ("\n\n".toList ++
          ("void main() \x7b\n".toList ++ (body calls ++ "\x7d\n".toList))))))))))) := by
  have hbody : (String.join (calls.map fun c => "    " ++ c.render ++ ";\n")).toList = body calls := by
    simp only [String.toList_join, body, Call.render, List.flatMap_map, String.toList_append, String.toList_ofList]
  simp only [render, String.join_cons, List.map_cons, List.map_nil, String.join_nil, String.append_empty,
    String.toList_append, toList_localSizeDeclaration, hbody, List.append_assoc]

/-- the local size is read back -/
theorem readLocalSize_render {localSize : Nat} (h : localSize < Size.bound) (calls : List Call) :
    readLocalSize (render localSize calls).toList = some localSize := by
  have hversion : Text.absent "local_size_x".toList version.toList = true := by
    simp only [version, String.reduceToList]
    decide
  have hbreak : Text.absent "local_size_x".toList "\n\n".toList = true := by
    simp only [String.reduceToList]
    decide
  have hdeclared (rest : List Char) : Text.afterFirst "local_size_x".toList ("layout(local_size_x = ".toList ++ rest) =
      some (' ' :: '=' :: ' ' :: rest) := by
    simp only [String.reduceToList]
    rfl
  -- the digits end at the comma
  have hwritten : Digits (Size.write localSize) := digits_toDigits localSize
  have hne : Size.write localSize ≠ [] := Nat.toDigits_ne_nil
  obtain ⟨hdigits, -⟩ := takeWhile_digits hwritten (", local_size_y = 1, local_size_z = 1) in;".toList ++
    ("\n\n".toList ++ (storageBlock.toList ++ ("\n\n".toList ++ (library.toList ++ ("\n\n".toList ++
      ("void main() \x7b\n".toList ++ (body calls ++ "\x7d\n".toList))))))))
    (by simp only [String.reduceToList, List.cons_append, List.head?_cons, Option.mem_some_iff, forall_eq']; decide)
  rw [toList_render, readLocalSize, Text.afterFirst_append hversion, Text.afterFirst_append hbreak, hdeclared]
  generalize ", local_size_y = 1, local_size_z = 1) in;".toList ++ _ = rest at hdigits ⊢
  have htight : Text.trimStart (' ' :: (Size.write localSize ++ rest)) = Size.write localSize ++ rest := by
    refine (List.dropWhile_cons_of_pos (by decide)).trans ?_
    apply Text.dropWhile_of_head
    intro c hc
    rw [List.head?_append_of_ne_nil _ hne] at hc
    exact (isNumeral_visible (isNumeral_of_isDigit (hwritten c (List.mem_of_mem_head? hc)))).1
  have hequals : Text.trimStart (' ' :: '=' :: ' ' :: (Size.write localSize ++ rest)) =
      '=' :: ' ' :: (Size.write localSize ++ rest) := by
    rfl
  simp only [Option.bind_eq_bind, Option.bind_some, hequals, htight, hdigits]
  exact Size.read_write h

/-- the lines of `main`, cut at the semicolons -/
theorem splitOn_body (calls : List Call) {blanks : List Char} (hb : Text.Blanks blanks) :
    (((blanks ++ body calls).splitOn ';').map Text.trim).filter (· ≠ []) = calls.map Call.renderChars := by
  induction calls generalizing blanks with
  | nil =>
    have hbody : body [] = [] := rfl
    rw [hbody, List.append_nil, List.splitOn_eq_singleton (hb.not_mem (by decide)), List.map_singleton,
      Text.trim_eq_nil.2 hb]
    rfl
  | cons c calls ih =>
    have hline : blanks ++ body (c :: calls) = (blanks ++ "    ".toList ++ c.renderChars) ++
        ';' :: ("\n".toList ++ body calls) := by
      simp only [body, List.flatMap_cons, String.reduceToList]
      simp
    have hspaces : Text.Blanks "    ".toList := by decide
    have hpadded : Text.Padded c.renderChars (blanks ++ "    ".toList ++ c.renderChars) :=
      (Text.padded_self c.renderChars).append_left (List.forall_mem_append.2 ⟨hb, hspaces⟩)
    have hne : c.renderChars ≠ [] := by simp [Call.renderChars]
    rw [hline, Text.map_trim_splitOn (by decide) (Call.not_mem_renderChars c) (Call.tight_renderChars c) hpadded,
      List.filter_cons_of_pos (by simpa using hne), ih (by decide), List.map_cons]

/-- the statements of `main` are the expressions of the calls -/
theorem mainStatements_render (localSize : Nat) (calls : List Call) :
    mainStatements (render localSize calls).toList = some (calls.map Call.renderChars) := by
  have hversion : Text.absent "void main()".toList version.toList = true := by
    simp only [version, String.reduceToList]
    decide
  have hbreak : Text.absent "void main()".toList "\n\n".toList = true := by
    simp only [String.reduceToList]
    decide
  have hopen : Text.absent "void main()".toList "layout(local_size_x = ".toList = true := by
    simp only [String.reduceToList]
    decide
  have hdigits : Text.absent "void main()".toList (Size.write localSize) = true := by
    simp only [String.reduceToList]
    exact Text.absent_of_ne fun c hc => (ne_of_isDigit (digits_toDigits localSize c hc) rfl).symm
  have hclose : Text.absent "void main()".toList ", local_size_y = 1, local_size_z = 1) in;".toList = true := by
    simp only [String.reduceToList]
    decide
  have hblock : Text.absent "void main()".toList storageBlock.toList = true := by
    simp only [storageBlock, String.reduceToList]
    decide
  have hlibrary : Text.absent "void main()".toList library.toList = true := by
    unfold library
    simp only [String.toList_intercalate, List.map_cons, List.map_nil, String.reduceToList]
    decide +kernel
  have hmain (rest : List Char) : Text.afterFirst "void main()".toList ("void main() \x7b\n".toList ++ rest) =
      some ([' '] ++ '\x7b' :: ('\n' :: rest)) := by
    simp only [String.reduceToList]
    rfl
  have hbraces :
      Text.splitLast '\x7d' ('\n' :: (body calls ++ "\x7d\n".toList)) = some ('\n' :: body calls, ['\n']) := by
    simp only [String.reduceToList]
    exact Text.splitLast_append (by decide) ('\n' :: body calls)
  have hfeed : Text.Blanks ['\n'] := by decide
  have hstatements := splitOn_body calls hfeed
  rw [List.singleton_append] at hstatements
  rw [toList_render, mainStatements, Text.afterFirst_append hversion, Text.afterFirst_append hbreak,
    Text.afterFirst_append hopen, Text.afterFirst_append hdigits, Text.afterFirst_append hclose,
    Text.afterFirst_append hbreak, Text.afterFirst_append hblock, Text.afterFirst_append hbreak,
    Text.afterFirst_append hlibrary, Text.afterFirst_append hbreak, hmain]
  simp only [Option.bind_eq_bind, Option.bind_some, Text.splitFirst_append (by decide : '\x7b' ∉ [' ']), hbraces,
    hstatements]
  rfl

end Shader

/-! ## Programs -/

namespace Program

variable {localSize : Nat} {calls : List Shader.Call}

/-- **Round trip.** A device parses a shader into the local size and the calls that it was rendered from, each as it is
read back. -/
theorem parse_render (hpos : 0 < localSize) (hbound : localSize < Size.bound) (h : ∀ c ∈ calls, c.Sized) :
    parse (Shader.render localSize calls) = .ok ⟨localSize, calls.map Shader.Call.readBack⟩ := by
  have hcalls : parseCalls (calls.map Shader.Call.renderChars) = .ok (calls.map Shader.Call.readBack) := by
    apply mapM_eq_ok.2
    rw [List.forall₂_map_left_iff, List.forall₂_map_right_iff, List.forall₂_same]
    intro c hc
    rw [Shader.Call.readChars_renderChars (h c hc)]
  have hsize : (Shader.readLocalSize (Shader.render localSize calls).toList).filter (0 < ·) = some localSize := by
    rw [Shader.readLocalSize_render hbound]
    simp [hpos]
  simp only [parse, hsize, Shader.mainStatements_render localSize calls, hcalls]
  rfl

/-- calls whose factors are numbers are read back as they are -/
theorem parse_render_of_writable (hpos : 0 < localSize) (hbound : localSize < Size.bound)
    (h : ∀ c ∈ calls, c.Writable) : parse (Shader.render localSize calls) = .ok ⟨localSize, calls⟩ := by
  have hsame : calls.map Shader.Call.readBack = calls := by
    rw [List.map_congr_left fun c hc => (h c hc).readBack_eq, List.map_id']
  rw [parse_render hpos hbound fun c hc => (h c hc).sized, hsame]

end Program

namespace HostDevice

variable {source : String}

theorem compile_of_ok {p : Program} (h : Program.parse source = .ok p) (d : HostDevice) :
    d.compile source = .ok (⟨d.programs.size⟩, ⟨d.memory, d.programs.push p⟩) := by
  simp only [compile, h]
  rfl

theorem compile_of_error {f : EngineError} (h : Program.parse source = .error f) (d : HostDevice) :
    d.compile source = .error (.refused f) := by
  simp only [compile, h]
  rfl

/-- **Shaders are accepted.** Whatever the local size and the calls are, the device compiles the shader that is rendered
from them, under the next handle, to the program that it is read back as. If the factors are numbers, infinities
included, this is the very local size and the very calls in order, bit by bit. -/
theorem compile_render {localSize : Nat} (hpos : 0 < localSize) (hbound : localSize < Size.bound)
    {calls : List Shader.Call} (h : ∀ c ∈ calls, c.Sized) :
    (∀ d : HostDevice, d.compile (Shader.render localSize calls) =
      .ok (⟨d.programs.size⟩, ⟨d.memory, d.programs.push ⟨localSize, calls.map Shader.Call.readBack⟩⟩)) ∧
    ((∀ c ∈ calls, ∀ x ∈ c.factor?, x.isNaN = false) →
      Program.parse (Shader.render localSize calls) = .ok ⟨localSize, calls⟩) := by
  refine ⟨compile_of_ok (Program.parse_render hpos hbound h), ?_⟩
  · intro hnumbers
    exact Program.parse_render_of_writable hpos hbound fun c hc => ⟨h c hc, hnumbers c hc⟩

/-- calls with the largest size, both zeros, both infinities and the smallest subnormal number -/
def extremes : List Shader.Call :=
  [.scale (Size.bound - 1) 0 0 .negZero, .scale 0 1 2 .zero, .scale 0 1 2 ⟨0xff800000⟩, .scale 0 1 2 ⟨0x7f800000⟩,
    .scale 0 1 2 ⟨1⟩, .product 0 1 2 3 (Size.bound - 1), .add 0 0 0 (Size.bound - 1)]

theorem compile_render_extremes :
    Program.parse (Shader.render (Size.bound - 1) extremes) = .ok ⟨Size.bound - 1, extremes⟩ ∧
      empty.compile (Shader.render 1 [.scale 0 0 1 .invalid]) =
        .ok (⟨0⟩, ⟨none, #[⟨1, [.scale 0 0 1 ⟨0x7fc00000⟩]⟩]⟩) := by
  have hlarge : ∀ c ∈ extremes, c.Sized := by decide +kernel
  have hsmall : ∀ c ∈ [Shader.Call.scale 0 0 1 .invalid], c.Sized := by decide +kernel
  exact ⟨(compile_render (by decide) (by decide) hlarge).2 (by decide +kernel),
    (compile_render (by decide) (by decide) hsmall).1 empty⟩

end HostDevice

end ArrayEngine
