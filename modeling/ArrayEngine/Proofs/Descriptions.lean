/-
Descriptions as text.

`Text.Lined steps` is the texts that have these steps, one a line: blanks may stand around a step, and lines may be
blank.
- `lines_eq_iff`: the steps of a text are the ones that it has on its lines;
- `parse_append`: two texts with a line feed between them are the descriptions of the two, one after the other;
- `parse_write`: steps are read back from a text that has one of them a line, where every line may end in a line feed or
  in a carriage return and a line feed;
- `parse_composes`: so a description that was read is read back however it is written.
-/
import ArrayEngine.Description
import ArrayEngine.Proofs.Cutting

namespace ArrayEngine

namespace Text

/-! ## Lines -/

/-- what can stand as a step -/
structure IsStep (cs : List Char) : Prop where
  ne_nil : cs ≠ []
  noFeed : '\n' ∉ cs
  tight : Tight cs

instance (cs : List Char) : Decidable (IsStep cs) :=
  decidable_of_iff (cs ≠ [] ∧ '\n' ∉ cs ∧ Tight cs)
    ⟨fun h => ⟨h.1, h.2.1, h.2.2⟩, fun h => ⟨h.ne_nil, h.noFeed, h.tight⟩⟩

/-- the texts that have the given steps on their lines -/
inductive Lined : List (List Char) → List Char → Prop
  | blank {line : List Char} (hfeed : '\n' ∉ line) (hblanks : Blanks line) : Lined [] line
  | step {step line : List Char} (hfeed : '\n' ∉ line) (hstep : IsStep step) (hpadded : Padded step line) :
    Lined [step] line
  | feed {before after : List (List Char)} {cs ds : List Char} (hbefore : Lined before cs) (hafter : Lined after ds) :
    Lined (before ++ after) (cs ++ '\n' :: ds)

/-- the lines of a text that is cut at a line feed -/
theorem lines_append_feed (cs ds : List Char) : lines (cs ++ '\n' :: ds) = lines cs ++ lines ds := by
  rw [lines, List.splitOn_append_cons_self, List.map_append, List.filter_append, lines, lines]

/-- a text without a line feed is one line -/
theorem lines_of_line {line : List Char} (h : '\n' ∉ line) : lines line = [trim line].filter (· ≠ []) := by
  rw [lines, List.splitOn_eq_singleton h, List.map_singleton]

theorem lines_of_lined {steps : List (List Char)} {cs : List Char} (h : Lined steps cs) : lines cs = steps := by
  induction h with
  | blank hfeed hblanks =>
    rw [lines_of_line hfeed, trim_eq_nil.2 hblanks]
    rfl
  | step hfeed hstep hpadded =>
    rw [lines_of_line hfeed, trim_of_padded hpadded hstep.tight]
    exact List.filter_cons_of_pos (by simpa using hstep.ne_nil)
  | feed _ _ ihbefore ihafter => rw [lines_append_feed, ihbefore, ihafter]

theorem lined_line {line : List Char} (h : '\n' ∉ line) : Lined (lines line) line := by
  rw [lines_of_line h]
  have hpadded := padded_trim line
  by_cases htrim : trim line = []
  · rw [htrim]
    exact .blank h (trim_eq_nil.1 htrim)
  · rw [List.filter_cons_of_pos (by simpa using htrim)]
    exact .step h ⟨htrim, fun hmem => h (hpadded.subset hmem), tight_trim line⟩ hpadded

theorem lined_lines (cs : List Char) : Lined (lines cs) cs := by
  induction hlen : cs.length using Nat.strong_induction_on generalizing cs with
  | h n ih =>
    cases hcut : splitFirst '\n' cs with
    | none => exact lined_line (splitFirst_eq_none.1 hcut)
    | some parts =>
      obtain ⟨left, right⟩ := parts
      obtain ⟨hleft, rfl⟩ := splitFirst_eq_some.1 hcut
      have hshort : right.length < n := by
        simp only [List.length_append, List.length_cons] at hlen
        omega
      rw [lines_append_feed]
      exact .feed (lined_line hleft) (ih _ hshort right rfl)

/-- **What the steps of a text are.** They are the ones that it has on its lines. -/
theorem lines_eq_iff {cs : List Char} {steps : List (List Char)} : lines cs = steps ↔ Lined steps cs :=
  ⟨fun h => h ▸ lined_lines cs, lines_of_lined⟩

theorem Lined.isStep {steps : List (List Char)} {cs : List Char} (h : Lined steps cs) : ∀ step ∈ steps, IsStep step := by
  induction h with
  | blank => nofun
  | step _ hstep _ => exact List.forall_mem_singleton.2 hstep
  | feed _ _ ihbefore ihafter => exact List.forall_mem_append.2 ⟨ihbefore, ihafter⟩

/-- how a line ends -/
inductive LineEnd where
  | feed
  | returnFeed
  deriving DecidableEq, Repr

/-- what stands before the line feed -/
def LineEnd.leading : LineEnd → List Char
  | feed => []
  | returnFeed => ['\r']

def LineEnd.chars (e : LineEnd) : List Char := e.leading ++ ['\n']

def LineEnd.text (e : LineEnd) : String := String.ofList e.chars

theorem LineEnd.blanks_leading (e : LineEnd) : Blanks e.leading ∧ '\n' ∉ e.leading := by
  cases e with
  | feed => exact ⟨nofun, nofun⟩
  | returnFeed => exact ⟨by decide, by decide⟩

/-- steps, one a line. `ending k` is the end of the line that `k` more line ends follow -/
def writeLines (ending : Nat → LineEnd) : List (List Char) → List Char
  | [] => []
  | [step] => step
  | step :: next :: rest => step ++ (ending rest.length).chars ++ writeLines ending (next :: rest)

/-- lines that all end the same way -/
theorem writeLines_const (e : LineEnd) (steps : List (List Char)) :
    writeLines (fun _ => e) steps = e.chars.intercalate steps := by
  induction steps with
  | nil => rfl
  | cons step steps ih =>
    cases steps with
    | nil => exact List.intercalate_singleton.symm
    | cons next rest => rw [List.intercalate_cons_cons, ← ih, writeLines]

theorem lined_writeLines (ending : Nat → LineEnd) {steps : List (List Char)} (h : ∀ step ∈ steps, IsStep step) :
    Lined steps (writeLines ending steps) := by
  induction steps with
  | nil => exact .blank List.not_mem_nil blanks_nil
  | cons step steps ih =>
    obtain ⟨hstep, hsteps⟩ := List.forall_mem_cons.1 h
    cases steps with
    | nil => exact .step hstep.noFeed hstep (padded_self step)
    | cons next rest =>
      obtain ⟨hblanks, hfeed⟩ := (ending rest.length).blanks_leading
      have hline : Lined [step] ([] ++ step ++ (ending rest.length).leading) :=
        .step (by simp [hstep.noFeed, hfeed]) hstep (.mk blanks_nil hblanks)
      have htext : writeLines ending (step :: next :: rest) =
          ([] ++ step ++ (ending rest.length).leading) ++ '\n' :: writeLines ending (next :: rest) := by
        simp [writeLines, LineEnd.chars]
      rw [htext]
      exact .feed hline (ih hsteps)

end Text

/-! ## Descriptions -/

namespace Description

theorem map_toList_steps (text : String) : (parse text).steps.map String.toList = Text.lines text.toList := by
  simp [parse, Function.comp_def]

/-- the description of a text, by the lines of the text -/
theorem parse_eq_iff {text : String} {d : Description} :
    parse text = d ↔ Text.Lined (d.steps.map String.toList) text.toList := by
  rw [← Text.lines_eq_iff, ← map_toList_steps]
  obtain ⟨steps⟩ := d
  constructor
  · intro h
    rw [h]
  · intro h
    exact congrArg Description.mk ((List.map_inj_right fun _ _ => String.toList_inj.1).1 h)

theorem parse_append (s t : String) : parse (s ++ "\n" ++ t) = (parse s).chain (parse t) := by
  have hfeed : (s ++ "\n" ++ t).toList = s.toList ++ '\n' :: t.toList := by simp
  simp only [parse, chain, hfeed, Text.lines_append_feed, List.map_append]

theorem isStep_of_mem_parse {text step : String} (h : step ∈ (parse text).steps) : Text.IsStep step.toList :=
  (Text.lined_lines text.toList).isStep _ (map_toList_steps text ▸ List.mem_map_of_mem h)

/-- a description as text, with the given line ends between its steps -/
def write (ending : Nat → Text.LineEnd) (d : Description) : String :=
  String.ofList (Text.writeLines ending (d.steps.map String.toList))

/-- steps are read back, whatever the line ends are -/
theorem parse_write (ending : Nat → Text.LineEnd) {d : Description} (h : ∀ step ∈ d.steps, Text.IsStep step.toList) :
    parse (d.write ending) = d := by
  rw [parse_eq_iff, write, String.toList_ofList]
  exact Text.lined_writeLines ending (List.forall_mem_map.2 h)

/-- lines that all end the same way are the steps with that line end between them -/
theorem write_const (e : Text.LineEnd) (d : Description) : d.write (fun _ => e) = e.text.intercalate d.steps := by
  rw [← String.toList_inj, write, String.toList_ofList, Text.writeLines_const, String.toList_intercalate,
    Text.LineEnd.text, String.toList_ofList]

/-- **Descriptions compose.** Two texts with a line feed between them are the one description and then the other. The
steps of a text are not empty, have no line feed and no blank at either end, and they are the ones that it has on its
lines. Every description with such steps is read back from its steps, one a line, whether a line ends in a line feed or
in a carriage return and a line feed; so are the steps that were read. -/
theorem parse_composes :
    (∀ s t, parse (s ++ "\n" ++ t) = (parse s).chain (parse t)) ∧
    (∀ text, (∀ step ∈ (parse text).steps, Text.IsStep step.toList) ∧
      Text.Lined ((parse text).steps.map String.toList) text.toList) ∧
    (∀ d : Description, (∀ step ∈ d.steps, Text.IsStep step.toList) →
      (∀ ending, parse (d.write ending) = d) ∧ ∀ e : Text.LineEnd, parse (e.text.intercalate d.steps) = d) ∧
    ∀ text ending, parse ((parse text).write ending) = parse text := by
  refine ⟨parse_append, ?_, ?_, ?_⟩
  · exact fun text => ⟨fun step => isStep_of_mem_parse, parse_eq_iff.1 rfl⟩
  · intro d h
    refine ⟨fun ending => parse_write ending h, fun e => ?_⟩
    rw [← write_const]
    exact parse_write _ h
  · exact fun text ending => parse_write ending fun step => isStep_of_mem_parse

/-- three steps, of which one has a carriage return inside, with either end of a line -/
theorem parse_composes_mixed : (∀ step ∈ ["a = f x", "b\r= g", "c"], Text.IsStep step.toList) ∧
    parse "a = f x\r\nb\r= g\nc" = ⟨["a = f x", "b\r= g", "c"]⟩ := by
  have hsteps : ∀ step ∈ ["a = f x", "b\r= g", "c"], Text.IsStep step.toList :=
    List.forall_mem_cons.2 ⟨by decide, List.forall_mem_cons.2 ⟨by decide, List.forall_mem_singleton.2 (by decide)⟩⟩
  have htext : write (fun k => if k = 0 then .feed else .returnFeed) ⟨["a = f x", "b\r= g", "c"]⟩ =
      "a = f x\r\nb\r= g\nc" := by decide +kernel
  refine ⟨hsteps, ?_⟩
  rw [← htext]
  exact (parse_composes.2.2.1 ⟨_⟩ hsteps).1 _

end Description

end ArrayEngine
