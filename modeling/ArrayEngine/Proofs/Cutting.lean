/-
How texts are trimmed and cut.

A text is `Tight` if no blank stands at either end; it is `Padded inner` if it is `inner` between blanks, and
`Spaced words` if it is these words between blanks.
- `trim_eq_iff`: a text is trimmed to the tight text that it is with blanks around;
- `splitFirst_eq_some`, `dropLast?_eq_some`: where a text is cut, and what is left of it;
- `words_eq_iff`: the words of a text are the words that it is with blanks around and between.
-/
import Mathlib.Data.List.TakeWhile
import Mathlib.Data.Nat.Init
import ArrayEngine.Text.Blank

namespace ArrayEngine.Text

/-! ## Trimming -/

/-- a text of blanks -/
def Blanks (cs : List Char) : Prop := ∀ c ∈ cs, isBlank c = true

instance (cs : List Char) : Decidable (Blanks cs) := decidable_of_iff (cs.all isBlank = true) List.all_eq_true

/-- a text between blanks -/
inductive Padded (inner : List Char) : List Char → Prop
  | mk {before after : List Char} (hbefore : Blanks before) (hafter : Blanks after) :
    Padded inner (before ++ inner ++ after)

theorem blanks_nil : Blanks [] := nofun

theorem padded_self (cs : List Char) : Padded cs cs := by
  have h : Padded cs ([] ++ cs ++ []) := .mk blanks_nil blanks_nil
  rwa [List.append_nil] at h

/-- a character that is not blank is not among blanks -/
theorem Blanks.not_mem {cs : List Char} (h : Blanks cs) {c : Char} (hc : isBlank c = false) : c ∉ cs := by
  intro hmem
  rw [h c hmem] at hc
  cases hc

theorem Padded.not_mem_iff {inner cs : List Char} (h : Padded inner cs) {c : Char} (hc : isBlank c = false) :
    c ∉ cs ↔ c ∉ inner := by
  obtain ⟨hbefore, hafter⟩ := h
  simp [hbefore.not_mem hc, hafter.not_mem hc]

theorem Padded.subset {inner cs : List Char} (h : Padded inner cs) : inner ⊆ cs := by
  obtain ⟨-, -⟩ := h
  exact List.Subset.trans (List.subset_append_right _ _) (List.subset_append_left _ _)

theorem Padded.append_left {inner cs blanks : List Char} (h : Padded inner cs) (hblanks : Blanks blanks) :
    Padded inner (blanks ++ cs) := by
  obtain ⟨hbefore, hafter⟩ := h
  rename_i before after
  have hpadded : Padded inner (blanks ++ before ++ inner ++ after) :=
    .mk (List.forall_mem_append.2 ⟨hblanks, hbefore⟩) hafter
  simpa using hpadded

/-- a text without a blank at either end -/
def Tight (cs : List Char) : Prop := (∀ c ∈ cs.head?, isBlank c = false) ∧ ∀ c ∈ cs.getLast?, isBlank c = false

instance (cs : List Char) : Decidable (Tight cs) :=
  decidable_of_iff (cs.head?.all (!isBlank ·) = true ∧ cs.getLast?.all (!isBlank ·) = true)
    (by simp [Tight, Option.all_eq_true])

theorem tight_of_visible {cs : List Char} (h : ∀ c ∈ cs, isBlank c = false) : Tight cs :=
  ⟨fun c hc => h c (List.mem_of_mem_head? hc), fun c hc => h c (List.mem_of_mem_getLast? hc)⟩

theorem dropWhile_of_head {p : Char → Bool} {cs : List Char} (h : ∀ c ∈ cs.head?, p c = false) :
    cs.dropWhile p = cs := by
  cases cs with
  | nil => rfl
  | cons c cs =>
    have hc : p c = false := h c rfl
    simp [hc]

theorem trimEndOf_of_getLast {p : Char → Bool} {cs : List Char} (h : ∀ c ∈ cs.getLast?, p c = false) :
    trimEndOf p cs = cs := by
  rw [trimEndOf, dropWhile_of_head, List.reverse_reverse]
  rwa [List.head?_reverse]

/-- what is trimmed from the end goes, whatever else goes with it -/
theorem trimEndOf_append {p : Char → Bool} {run : List Char} (h : ∀ c ∈ run, p c = true) (cs : List Char) :
    trimEndOf p (cs ++ run) = trimEndOf p cs := by
  have hrev : ∀ c ∈ run.reverse, p c = true := fun c hc => h c (List.mem_reverse.1 hc)
  rw [trimEndOf, List.reverse_append, List.dropWhile_append_of_pos hrev, trimEndOf]

/-- a text is what is left of it and what is trimmed from its end -/
theorem exists_trimEndOf (p : Char → Bool) (cs : List Char) :
    ∃ run, (∀ c ∈ run, p c = true) ∧ cs = trimEndOf p cs ++ run ∧ ∀ c ∈ (trimEndOf p cs).getLast?, p c = false := by
  refine ⟨(cs.reverse.takeWhile p).reverse, ?_, ?_, ?_⟩
  · intro c hc
    exact List.all_eq_true.1 List.all_takeWhile c (List.mem_reverse.1 hc)
  · rw [trimEndOf, ← List.reverse_append, List.takeWhile_append_dropWhile, List.reverse_reverse]
  · intro c hc
    have hnot := List.head?_dropWhile_not p cs.reverse
    rw [trimEndOf, List.getLast?_reverse] at hc
    rwa [Option.mem_def.1 hc] at hnot

theorem trim_of_padded {inner cs : List Char} (h : Padded inner cs) (ht : Tight inner) : trim cs = inner := by
  obtain ⟨hbefore, hafter⟩ := h
  rw [trim, trimStart, List.append_assoc, List.dropWhile_append_of_pos hbefore]
  cases inner with
  | nil =>
    rw [List.nil_append, List.dropWhile_eq_nil_iff.2 hafter]
    rfl
  | cons c cs =>
    have hhead : isBlank c = false := ht.1 c rfl
    rw [dropWhile_of_head fun d hd => Option.some.inj hd ▸ hhead, trimEnd, trimEndOf_append hafter]
    exact trimEndOf_of_getLast ht.2

theorem padded_trim (cs : List Char) : Padded (trim cs) cs := by
  obtain ⟨after, hafter, hcs, -⟩ := exists_trimEndOf isBlank (trimStart cs)
  have hsplit : cs.takeWhile isBlank ++ trim cs ++ after = cs := by
    rw [List.append_assoc, trim, trimEnd, ← hcs]
    exact List.takeWhile_append_dropWhile
  have hpadded : Padded (trim cs) (cs.takeWhile isBlank ++ trim cs ++ after) :=
    .mk (List.all_eq_true.1 List.all_takeWhile) hafter
  rwa [hsplit] at hpadded

theorem tight_trim (cs : List Char) : Tight (trim cs) := by
  obtain ⟨after, -, hcs, hlast⟩ := exists_trimEndOf isBlank (trimStart cs)
  refine ⟨?_, hlast⟩
  intro c hc
  -- what starts the trimmed text starts what was left when the blanks in front were gone
  have hhead : (trimStart cs).head? = some c := by
    rw [hcs, List.head?_append, ← trimEnd, ← trim, Option.mem_def.1 hc, Option.some_or]
  have hnot := List.head?_dropWhile_not isBlank cs
  rw [← trimStart, hhead] at hnot
  exact hnot

/-- **What trimming does.** A text is trimmed to the tight text that it is with blanks around. -/
theorem trim_eq_iff {cs inner : List Char} : trim cs = inner ↔ Tight inner ∧ Padded inner cs := by
  constructor
  · intro h
    subst h
    exact ⟨tight_trim cs, padded_trim cs⟩
  · exact fun h => trim_of_padded h.2 h.1

/-- nothing is left of blanks only -/
theorem trim_eq_nil {cs : List Char} : trim cs = [] ↔ Blanks cs := by
  constructor
  · intro h
    obtain ⟨-, hpadded⟩ := trim_eq_iff.1 h
    obtain ⟨hbefore, hafter⟩ := hpadded
    rw [List.append_nil]
    exact List.forall_mem_append.2 ⟨hbefore, hafter⟩
  · intro h
    have hpadded : Padded [] ([] ++ [] ++ cs) := .mk blanks_nil h
    exact trim_of_padded hpadded ⟨nofun, nofun⟩

/-! ## Cutting -/

theorem splitFirst_append {c : Char} {cs : List Char} (h : c ∉ cs) (rest : List Char) :
    splitFirst c (cs ++ c :: rest) = some (cs, rest) := by
  induction cs with
  | nil => simp [splitFirst]
  | cons d ds ih =>
    have hd : d ≠ c := fun he => h (he ▸ List.mem_cons_self)
    rw [List.cons_append, splitFirst, if_neg hd, ih fun hc => h (List.mem_cons_of_mem d hc)]
    rfl

theorem splitFirst_eq_some {c : Char} {cs left right : List Char} :
    splitFirst c cs = some (left, right) ↔ c ∉ left ∧ cs = left ++ c :: right := by
  constructor
  · intro h
    induction cs generalizing left with
    | nil => cases h
    | cons d ds ih =>
      rw [splitFirst] at h
      split_ifs at h with hd
      · cases h
        exact ⟨List.not_mem_nil, by rw [hd, List.nil_append]⟩
      · obtain ⟨⟨left', right'⟩, hds, heq⟩ := Option.map_eq_some_iff.1 h
        cases heq
        obtain ⟨hleft, rfl⟩ := ih hds
        exact ⟨List.not_mem_cons_of_ne_of_not_mem (Ne.symm hd) hleft, rfl⟩
  · intro h
    obtain ⟨hleft, rfl⟩ := h
    exact splitFirst_append hleft right

theorem splitFirst_eq_none {c : Char} {cs : List Char} : splitFirst c cs = none ↔ c ∉ cs := by
  constructor
  · intro h hmem
    obtain ⟨left, right, rfl, hleft⟩ := List.eq_append_cons_of_mem hmem
    rw [splitFirst_append hleft] at h
    cases h
  · intro h
    cases hcut : splitFirst c cs with
    | none => rfl
    | some parts =>
      obtain ⟨-, rfl⟩ := splitFirst_eq_some.1 hcut
      exact absurd (List.mem_append_right parts.1 List.mem_cons_self) h

theorem splitLast_append {c : Char} {rest : List Char} (h : c ∉ rest) (cs : List Char) :
    splitLast c (cs ++ c :: rest) = some (cs, rest) := by
  have hrev : (cs ++ c :: rest).reverse = rest.reverse ++ c :: cs.reverse := by simp
  rw [splitLast, hrev, splitFirst_append (by simpa using h)]
  simp

theorem dropLast?_append (c : Char) (cs : List Char) : dropLast? c (cs ++ [c]) = some cs := by
  simp [dropLast?]

theorem dropLast?_eq_some {c : Char} {cs rest : List Char} : dropLast? c cs = some rest ↔ cs = rest ++ [c] := by
  constructor
  · intro h
    rw [dropLast?] at h
    split_ifs at h with hlast
    obtain ⟨ds, rfl⟩ := List.getLast?_eq_some_iff.1 hlast
    rw [List.dropLast_concat] at h
    rw [Option.some.inj h]
  · intro h
    rw [h, dropLast?_append]

/-- the first piece of a text, cut at a separator and trimmed -/
theorem map_trim_splitOn {c : Char} (hc : isBlank c = false) {piece line : List Char} (hp : c ∉ piece)
    (ht : Tight piece) (h : Padded piece line) (rest : List Char) :
    ((line ++ c :: rest).splitOn c).map trim = piece :: (rest.splitOn c).map trim := by
  rw [List.splitOn_append_cons_self_of_not_mem ((h.not_mem_iff hc).2 hp), List.map_cons, trim_of_padded h ht]

/-- joined pieces are the first one, and then each other one with the separator in front -/
theorem intercalate_cons (sep piece : List Char) (rest : List (List Char)) :
    sep.intercalate (piece :: rest) = piece ++ rest.flatMap (sep ++ ·) := by
  induction rest generalizing piece with
  | nil => simp
  | cons next rest ih =>
    rw [List.intercalate_cons_cons, ih next, List.flatMap_cons, List.append_assoc, List.append_assoc]

/-! ## Words -/

/-- a text that is one piece between blanks -/
structure Word (cs : List Char) : Prop where
  ne_nil : cs ≠ []
  visible : ∀ c ∈ cs, isBlank c = false

instance (cs : List Char) : Decidable (Word cs) :=
  decidable_of_iff (cs ≠ [] ∧ cs.all (!isBlank ·) = true)
    ⟨fun h => ⟨h.1, by simpa using h.2⟩, fun h => ⟨h.ne_nil, by simpa using h.visible⟩⟩

/-- words between blanks: at least one blank between two words, and any number before and after them -/
inductive Spaced : List (List Char) → List Char → Prop
  | nil {blanks : List Char} (hblanks : Blanks blanks) : Spaced [] blanks
  | cons {blanks word rest : List Char} {words : List (List Char)} (hblanks : Blanks blanks) (hword : Word word)
      (hrest : ∀ c ∈ rest.head?, isBlank c = true) (hwords : Spaced words rest) :
    Spaced (word :: words) (blanks ++ word ++ rest)

/-- the words of a text that is cut at a blank -/
theorem words_append_blank {b : Char} (hb : isBlank b = true) (cs ds : List Char) :
    words (cs ++ b :: ds) = words cs ++ words ds := by
  rw [words, List.splitOnP_append_cons _ _ hb, List.filter_append, words, words]

theorem words_blanks_append {blanks : List Char} (h : Blanks blanks) (cs : List Char) :
    words (blanks ++ cs) = words cs := by
  induction blanks with
  | nil => rfl
  | cons b bs ih =>
    obtain ⟨hb, hbs⟩ := List.forall_mem_cons.1 h
    have hcut := words_append_blank hb [] (bs ++ cs)
    rw [List.nil_append] at hcut
    exact hcut.trans (ih hbs)

theorem words_of_word {word : List Char} (h : Word word) : words word = [word] := by
  rw [words, List.splitOnP_eq_singleton h.visible, List.filter_cons_of_pos (by simpa using h.ne_nil), List.filter_nil]

theorem words_word_append {word rest : List Char} (h : Word word) (hrest : ∀ c ∈ rest.head?, isBlank c = true) :
    words (word ++ rest) = word :: words rest := by
  cases rest with
  | nil =>
    rw [List.append_nil, words_of_word h]
    rfl
  | cons b rest =>
    have hb : isBlank b = true := hrest b rfl
    have hafter : words (b :: rest) = words rest := words_append_blank hb [] rest
    rw [words_append_blank hb, words_of_word h, hafter, List.singleton_append]

theorem words_of_spaced {ws : List (List Char)} {cs : List Char} (h : Spaced ws cs) : words cs = ws := by
  induction h with
  | nil hblanks =>
    have hcut := words_blanks_append hblanks []
    rw [List.append_nil] at hcut
    exact hcut
  | cons hblanks hword hrest _ ih =>
    rw [List.append_assoc, words_blanks_append hblanks, words_word_append hword hrest, ih]

/-- a text that is not blank starts with blanks and a word, and goes on with a blank or not at all -/
theorem exists_first_word {cs : List Char} (h : ¬Blanks cs) :
    ∃ blanks word rest, Blanks blanks ∧ Word word ∧ (∀ c ∈ rest.head?, isBlank c = true) ∧
      cs = blanks ++ word ++ rest := by
  have hcut : cs.takeWhile isBlank ++ cs.dropWhile isBlank = cs := List.takeWhile_append_dropWhile
  have hhead := List.head?_dropWhile_not isBlank cs
  have hne : cs.dropWhile isBlank ≠ [] := fun hnil => h (List.dropWhile_eq_nil_iff.1 hnil)
  obtain ⟨c, ds, hds⟩ := List.exists_cons_of_ne_nil hne
  rw [hds] at hcut hhead
  have hc : isBlank c = false := hhead
  refine ⟨cs.takeWhile isBlank, (c :: ds).takeWhile (!isBlank ·), (c :: ds).dropWhile (!isBlank ·),
    List.all_eq_true.1 List.all_takeWhile, ⟨?_, ?_⟩, ?_, ?_⟩
  · simp [hc]
  · intro d hd
    simpa using List.all_eq_true.1 List.all_takeWhile d hd
  · intro d hd
    have hnot := List.head?_dropWhile_not (!isBlank ·) (c :: ds)
    rw [Option.mem_def.1 hd] at hnot
    simpa using hnot
  · rw [List.append_assoc, List.takeWhile_append_dropWhile, hcut]

theorem spaced_words (cs : List Char) : Spaced (words cs) cs := by
  induction hlen : cs.length using Nat.strong_induction_on generalizing cs with
  | h n ih =>
    by_cases hcs : Blanks cs
    · rw [words_of_spaced (.nil hcs)]
      exact .nil hcs
    · obtain ⟨blanks, word, rest, hblanks, hword, hrest, rfl⟩ := exists_first_word hcs
      have hshort : rest.length < n := by
        have hpos := List.length_pos_iff.2 hword.ne_nil
        simp only [List.length_append] at hlen
        omega
      rw [List.append_assoc, words_blanks_append hblanks, words_word_append hword hrest, ← List.append_assoc]
      exact .cons hblanks hword hrest (ih _ hshort rest rfl)

/-- **What cutting at blanks does.** The words of a text are the words that it is with blanks around and between. -/
theorem words_eq_iff {cs : List Char} {ws : List (List Char)} : words cs = ws ↔ Spaced ws cs :=
  ⟨fun h => h ▸ spaced_words cs, words_of_spaced⟩

theorem Spaced.word {ws : List (List Char)} {cs : List Char} (h : Spaced ws cs) : ∀ w ∈ ws, Word w := by
  induction h with
  | nil => nofun
  | cons _ hword _ _ ih => exact List.forall_mem_cons.2 ⟨hword, ih⟩

theorem words_eq_nil {cs : List Char} : words cs = [] ↔ Blanks cs := by
  rw [words_eq_iff]
  constructor
  · intro h
    cases h with
    | nil hblanks => exact hblanks
  · exact .nil

/-- words that are written with a blank between them are cut apart again -/
theorem words_intercalate {ws : List (List Char)} (h : ∀ w ∈ ws, Word w) : words ([' '].intercalate ws) = ws := by
  induction ws with
  | nil => rfl
  | cons w ws ih =>
    obtain ⟨hw, hws⟩ := List.forall_mem_cons.1 h
    cases ws with
    | nil => rw [List.intercalate_singleton, words_of_word hw]
    | cons w' ws =>
      rw [List.intercalate_cons_cons, List.append_assoc, List.singleton_append, words_append_blank (by decide),
        words_of_word hw, ih hws, List.singleton_append]

end ArrayEngine.Text
