/-
Records are read back from their documents.

A directory is `Sized` if its offsets and extents are sizes. Every directory that a document holds is sized
(`sized_of_ofJson?`).

- `Json.fields?_ofMembers`: an object with distinct keys gives back the values of its fields;
- `Item.ofJson?_toJson`: an item is read back if it is sized;
- `NameMap.foldl_put_entries`: a map is put together again from its entries, which stand in ascending order;
- `documents_faithful`: descriptions and sized directories are read back from their documents, distinct ones have
  distinct documents, and what is read from any document stands also in the document that is written for it.
-/
import ArrayEngine.Json.Records
import ArrayEngine.Proofs.JsonText

namespace ArrayEngine

/-! ## Lists -/

section

variable {α β : Type} {f : α → Option β}

/-- a list is read if each of its members is -/
theorem mapM_eq_some {xs : List α} {ys : List β} :
    xs.mapM f = some ys ↔ List.Forall₂ (fun x y => f x = some y) xs ys := by
  induction xs generalizing ys with
  | nil => simp [eq_comm]
  | cons x xs ih =>
    simp only [List.mapM_cons, Option.bind_eq_bind, Option.bind_eq_some_iff, Option.pure_def, Option.some.injEq, ih,
      List.forall₂_cons_left_iff, exists_and_left, @eq_comm _ _ ys]

theorem exists_of_mem_of_mapM_eq_some {xs : List α} {ys : List β} (h : xs.mapM f = some ys) {y : β} (hy : y ∈ ys) :
    ∃ x ∈ xs, f x = some y := by
  replace h := mapM_eq_some.1 h
  induction h with
  | nil => cases hy
  | @cons x z xs zs hx _ ih =>
    rcases List.mem_cons.1 hy with rfl | hy
    · exact ⟨x, List.mem_cons_self, hx⟩
    · obtain ⟨w, hw, hwy⟩ := ih hy
      exact ⟨w, List.mem_cons_of_mem x hw, hwy⟩

/-- a list that is read member by member as it was written -/
theorem mapM_map_eq_some {γ : Type} {g : γ → α} {h : γ → β} {zs : List γ} (hz : ∀ z ∈ zs, f (g z) = some (h z)) :
    (zs.map g).mapM f = some (zs.map h) := by
  rw [mapM_eq_some, List.forall₂_map_left_iff, List.forall₂_map_right_iff, List.forall₂_same]
  exact hz

theorem mapM_map_eq_self {g : β → α} {ys : List β} (h : ∀ y ∈ ys, f (g y) = some y) : (ys.map g).mapM f = some ys := by
  rw [mapM_map_eq_some h, List.map_id']

end

/-! ## Values -/

namespace Json

theorem size?_ofSize {n : Nat} (hn : n < Size.bound) : (ofSize n).size? = some n := by
  have hdigits : (Size.write n).all Char.isDigit = true := List.all_eq_true.2 (digits_toDigits n)
  simp only [ofSize, size?, hdigits, if_true, Size.read_write hn]

theorem lt_of_size? {v : Json} {n : Nat} (h : v.size? = some n) : n < Size.bound := by
  cases v with
  | number text =>
    simp only [size?, Size.read] at h
    split_ifs at h with _ _ hlt
    cases h
    exact hlt
  | _ => cases h

theorem lt_of_sizes? {v : Json} {xs : List Nat} (h : v.sizes? = some xs) : ∀ n ∈ xs, n < Size.bound := by
  obtain ⟨vs, -, hvs⟩ := Option.bind_eq_some_iff.1 h
  intro n hn
  obtain ⟨w, -, hw⟩ := exists_of_mem_of_mapM_eq_some hvs hn
  exact lt_of_size? hw

theorem sizes?_ofSizes {xs : List Nat} (hxs : ∀ n ∈ xs, n < Size.bound) : (ofSizes xs).sizes? = some xs := by
  rw [sizes?, ofSizes, elements?, Option.bind_some]
  exact mapM_map_eq_self fun n hn => size?_ofSize (hxs n hn)

theorem texts?_ofTexts (xs : List String) : (ofTexts xs).texts? = some xs := by
  rw [texts?, ofTexts, elements?, Option.bind_some]
  exact mapM_map_eq_self fun _ _ => rfl

theorem members?_ofMembers (ms : List (String × Json)) : (ofMembers ms).members? = some ms := by
  unfold ofMembers members?
  exact mapM_map_eq_self fun _ _ => rfl

theorem filter_key {ms : List (String × Json)} (hnodup : (ms.map (·.1)).Nodup) {m : String × Json} (hm : m ∈ ms) :
    ms.filter (·.1 == m.1) = [m] := by
  induction ms with
  | nil => cases hm
  | cons n ms ih =>
    obtain ⟨hn, hnodup⟩ := List.nodup_cons.1 hnodup
    rcases List.mem_cons.1 hm with rfl | hm
    · have hnone : ms.filter (·.1 == m.1) = [] :=
        List.filter_eq_nil_iff.2 fun l hl heq => hn (List.mem_map.2 ⟨l, hl, beq_iff_eq.1 heq⟩)
      rw [List.filter_cons_of_pos (by simp), hnone]
    · have hne : ¬(n.1 == m.1) = true := fun heq => hn (List.mem_map.2 ⟨m, hm, (beq_iff_eq.1 heq).symm⟩)
      rw [List.filter_cons, if_neg hne, ih hnodup hm]

/-- **A record gives back its fields**, if no two have one name -/
theorem fields?_ofMembers (ms : List (String × Json)) (hnodup : (ms.map (·.1)).Nodup) :
    (ofMembers ms).fields? (ms.map (·.1)) = some (ms.map (·.2)) := by
  have hmembers := members?_ofMembers ms
  unfold ofMembers at hmembers ⊢
  simp only [fields?, hmembers]
  refine mapM_map_eq_some fun m hm => ?_
  rw [filter_key hnodup hm]

theorem Plain.ofTexts (xs : List String) : (ofTexts xs).Plain :=
  .array (List.forall_mem_map.2 fun s _ => .text s)

theorem Plain.ofSizes (xs : List Nat) : (ofSizes xs).Plain :=
  .array (List.forall_mem_map.2 fun n _ => .size n)

theorem Plain.ofMembers {ms : List (String × Json)} (h : ∀ m ∈ ms, m.2.Plain) : (ofMembers ms).Plain :=
  .object (List.forall_mem_map.2 fun _ _ => rfl) (List.forall_mem_map.2 h)

end Json

/-! ## Descriptions -/

namespace Description

theorem ofJson?_toJson (d : Description) : ofJson? d.toJson = some d := by
  have hfields : d.toJson.fields? ["steps"] = some [.ofTexts d.steps] :=
    Json.fields?_ofMembers [("steps", .ofTexts d.steps)] (List.nodup_singleton _)
  simp [ofJson?, hfields, Json.texts?_ofTexts]

theorem plain_toJson (d : Description) : d.toJson.Plain :=
  .ofMembers (by simp [Json.Plain.ofTexts])

end Description

/-! ## Items -/

theorem Kind.ofJson?_label (k : Kind) : Kind.ofJson? (.ofText k.label) = some k := by
  cases k <;> rfl

namespace Item

/-- the offset and the extents are sizes -/
structure Sized (item : Item) : Prop where
  offset : item.offset < Size.bound
  extents : ∀ n ∈ item.shape, n < Size.bound

instance (item : Item) : Decidable item.Sized :=
  decidable_of_iff (item.offset < Size.bound ∧ ∀ n ∈ item.shape, n < Size.bound)
    ⟨fun h => ⟨h.1, h.2⟩, fun h => ⟨h.offset, h.extents⟩⟩

theorem ofJson?_toJson {item : Item} (h : item.Sized) : ofJson? item.toJson = some item := by
  have hfields : item.toJson.fields? ["kind", "offset", "shape"] =
      some [.ofText item.kind.label, .ofSize item.offset, .ofSizes item.shape] :=
    Json.fields?_ofMembers [("kind", .ofText item.kind.label), ("offset", .ofSize item.offset),
      ("shape", .ofSizes item.shape)] (by simp)
  simp [ofJson?, hfields, Kind.ofJson?_label, Json.size?_ofSize h.offset, Json.sizes?_ofSizes h.extents]

theorem plain_toJson (item : Item) : item.toJson.Plain :=
  .ofMembers (by simp [Json.Plain.ofSizes, Json.Plain.size, Json.Plain.text])

/-- an item is read as sizes, or not at all -/
theorem sized_of_ofJson? {v : Json} {item : Item} (h : ofJson? v = some item) : item.Sized := by
  obtain ⟨fields, -, h⟩ := Option.bind_eq_some_iff.1 h
  split at h
  · obtain ⟨kind, -, h⟩ := Option.bind_eq_some_iff.1 h
    obtain ⟨offset, hoffset, h⟩ := Option.bind_eq_some_iff.1 h
    obtain ⟨shape, hshape, h⟩ := Option.bind_eq_some_iff.1 h
    cases h
    exact ⟨Json.lt_of_size? hoffset, Json.lt_of_sizes? hshape⟩
  · cases h

end Item

/-! ## Maps -/

namespace NameMap

variable {α : Type}

/-- a name behind all others goes to the end -/
theorem putEntry_of_forall_lt {name : String} {value : α} {entries : List (String × α)}
    (h : ∀ e ∈ entries, e.1 < name) : putEntry name value entries = entries ++ [(name, value)] := by
  induction entries with
  | nil => rfl
  | cons e entries ih =>
    obtain ⟨he, hentries⟩ := List.forall_mem_cons.1 h
    have hlt : ¬name < e.1 := String.lt_asymm he
    have hne : name ≠ e.1 := fun heq => String.lt_irrefl _ (heq ▸ he)
    rw [putEntry, if_neg hlt, if_neg hne, ih hentries, List.cons_append]

/-- entries that stand in order are put one behind the other -/
theorem entries_foldl_put {es : List (String × α)} {m : NameMap α}
    (h : (m.entries ++ es).Pairwise fun a b => a.1 < b.1) :
    (es.foldl (fun m e => m.put e.1 e.2) m).entries = m.entries ++ es := by
  induction es generalizing m with
  | nil => rw [List.foldl_nil, List.append_nil]
  | cons e es ih =>
    -- the name is behind all names that are there
    have hput : (m.put e.1 e.2).entries = m.entries ++ [e] :=
      putEntry_of_forall_lt fun d hd => (List.pairwise_append.1 h).2.2 d hd e List.mem_cons_self
    rw [List.append_cons, ← hput] at h
    rw [List.foldl_cons, ih h, hput, ← List.append_cons]

/-- **A map is put together again** from its entries -/
theorem foldl_put_entries (m : NameMap α) :
    m.entries.foldl (fun m e => m.put e.1 e.2) .empty = m := by
  have hascending : ((empty : NameMap α).entries ++ m.entries).Pairwise fun a b => a.1 < b.1 := m.ascending
  have hentries := entries_foldl_put hascending
  cases m
  rw [mk.injEq]
  exact hentries

/-- no entry comes from elsewhere -/
theorem mem_foldl_put {es : List (String × α)} {m : NameMap α} {e : String × α}
    (h : e ∈ (es.foldl (fun m e => m.put e.1 e.2) m).entries) : e ∈ m.entries ∨ e ∈ es := by
  induction es generalizing m with
  | nil => exact .inl h
  | cons d es ih =>
    rcases ih h with h | h
    · rcases mem_putEntry h with rfl | h
      · exact .inr List.mem_cons_self
      · exact .inl h
    · exact .inr (List.mem_cons_of_mem _ h)

theorem ofJson?_toJson {m : NameMap Item} (h : ∀ e ∈ m.entries, e.2.Sized) : ofJson? m.toJson = some m := by
  have hread : ∀ e ∈ m.entries, (Item.ofJson? e.2.toJson).map (e.1, ·) = some e := fun e he => by
    rw [Item.ofJson?_toJson (h e he), Option.map_some]
  have hentries : (m.entries.map fun e => (e.1, e.2.toJson)).mapM (fun e => (Item.ofJson? e.2).map (e.1, ·)) =
      some m.entries := mapM_map_eq_self hread
  have hmembers : m.toJson.members? = some (m.entries.map fun e => (e.1, e.2.toJson)) := Json.members?_ofMembers _
  simp only [ofJson?, hmembers, Option.bind_eq_bind, Option.bind_some, hentries]
  exact congrArg some m.foldl_put_entries

theorem plain_toJson (m : NameMap Item) : m.toJson.Plain :=
  .ofMembers (List.forall_mem_map.2 fun e _ => e.2.plain_toJson)

theorem sized_of_ofJson? {v : Json} {m : NameMap Item} (h : ofJson? v = some m) : ∀ e ∈ m.entries, e.2.Sized := by
  obtain ⟨members, -, h⟩ := Option.bind_eq_some_iff.1 h
  obtain ⟨entries, hentries, h⟩ := Option.bind_eq_some_iff.1 h
  cases h
  intro e he
  rcases mem_foldl_put he with he | he
  · cases he
  · obtain ⟨member, -, hread⟩ := exists_of_mem_of_mapM_eq_some hentries he
    obtain ⟨item, hitem, rfl⟩ := Option.map_eq_some_iff.1 hread
    exact Item.sized_of_ofJson? hitem

end NameMap

/-! ## Directories -/

namespace Directory

/-- all offsets and extents are sizes -/
def Sized (d : Directory) : Prop := ∀ e ∈ d.items.entries, e.2.Sized

instance (d : Directory) : Decidable d.Sized := inferInstanceAs (Decidable (∀ e ∈ d.items.entries, e.2.Sized))

theorem ofJson?_toJson {d : Directory} (h : d.Sized) : ofJson? d.toJson = some d := by
  have hfields : d.toJson.fields? ["items"] = some [d.items.toJson] :=
    Json.fields?_ofMembers [("items", d.items.toJson)] (List.nodup_singleton _)
  simp [ofJson?, hfields, NameMap.ofJson?_toJson h]

theorem plain_toJson (d : Directory) : d.toJson.Plain :=
  .ofMembers (by simp [NameMap.plain_toJson])

theorem sized_of_ofJson? {v : Json} {d : Directory} (h : ofJson? v = some d) : d.Sized := by
  obtain ⟨fields, -, h⟩ := Option.bind_eq_some_iff.1 h
  split at h
  · obtain ⟨items, hitems, h⟩ := Option.bind_eq_some_iff.1 h
    cases h
    exact NameMap.sized_of_ofJson? hitems
  · cases h

end Directory

/-! ## Documents -/

/-- how the values of a type stand in documents: a value that fits is read back from its document, no two have the same
one, and what is read from any document fits, so that it is read again from the document that is written for it -/
structure Faithful {α : Type} (fits : α → Prop) (toDocument : α → String) (ofDocument? : String → Option α) : Prop where
  reads : ∀ a, fits a → ofDocument? (toDocument a) = some a
  distinct : ∀ a b, fits a → fits b → a ≠ b → toDocument a ≠ toDocument b
  again : ∀ text a, ofDocument? text = some a → fits a ∧ ofDocument? (toDocument a) = some a

theorem Faithful.of_reads {α : Type} {fits : α → Prop} {toDocument : α → String} {ofDocument? : String → Option α}
    (hreads : ∀ a, fits a → ofDocument? (toDocument a) = some a)
    (hfits : ∀ text a, ofDocument? text = some a → fits a) : Faithful fits toDocument ofDocument? where
  reads := hreads
  distinct a b ha hb hne htext := by
    have hread := hreads a ha
    rw [htext, hreads b hb] at hread
    exact hne (Option.some.inj hread).symm
  again text a h := ⟨hfits text a h, hreads a (hfits text a h)⟩

/-- **Documents are faithful.** Any description is read back from its document, whatever characters its commands have,
and so is any directory whose offsets and extents are sizes, whatever its names; different ones have different
documents. What is read from any document at all is read again from the document written for it -/
theorem documents_faithful :
    Faithful (fun _ => True) Description.toDocument Description.ofDocument? ∧
      Faithful Directory.Sized Directory.toDocument Directory.ofDocument? := by
  refine ⟨.of_reads ?_ fun _ _ _ => trivial, .of_reads ?_ ?_⟩
  · intro d _
    rw [Description.ofDocument?, Description.toDocument, d.plain_toJson.read_compact, Option.bind_some,
      d.ofJson?_toJson]
  · intro d hd
    rw [Directory.ofDocument?, Directory.toDocument, d.plain_toJson.read_compact, Option.bind_some,
      Directory.ofJson?_toJson hd]
  · intro text d h
    obtain ⟨v, -, hv⟩ := Option.bind_eq_some_iff.1 h
    exact Directory.sized_of_ofJson? hv

/-- names that need escapes or none, and the largest sizes -/
def Directory.extremes : Directory where
  items :=
    { entries :=
        [("", ⟨.vector, 0, []⟩),
          ("\x00\x1f \"\\/\t", ⟨.matrix, 18446744073709551615, [0, 18446744073709551615]⟩),
          ("é → 😀", ⟨.array3, 16, [1, 2, 3]⟩)]
      ascending := by decide }

theorem documents_faithful_extremes :
    Directory.extremes.toDocument =
        "\x7b\"items\":\x7b\"\":\x7b\"kind\":\"Vector\",\"offset\":0,\"shape\":[]\x7d," ++
          "\"\\u0000\\u001f \\\"\\\\/\\t\":\x7b\"kind\":\"Matrix\",\"offset\":18446744073709551615," ++
          "\"shape\":[0,18446744073709551615]\x7d," ++
          "\"é → 😀\":\x7b\"kind\":\"Array3\",\"offset\":16,\"shape\":[1,2,3]\x7d\x7d\x7d" ∧
      Directory.extremes.Sized ∧ Directory.ofDocument? Directory.extremes.toDocument = some Directory.extremes ∧
      Description.ofDocument? " \x7b\"note\": [-1.5e3, null], \"steps\": [\"\\u0041 = add B \\ud83d\\ude00\"]\x7d" =
        some ⟨["A = add B 😀"]⟩ ∧
      Description.ofDocument? (Description.toDocument ⟨["A = add B 😀"]⟩) = some ⟨["A = add B 😀"]⟩ := by
  have hsized : Directory.extremes.Sized := by decide
  have hread :
      Description.ofDocument? " \x7b\"note\": [-1.5e3, null], \"steps\": [\"\\u0041 = add B \\ud83d\\ude00\"]\x7d" =
        some ⟨["A = add B 😀"]⟩ := by decide +kernel
  refine ⟨by decide +kernel, hsized, documents_faithful.2.reads _ hsized, hread, ?_⟩
  exact (documents_faithful.1.again _ _ hread).2

end ArrayEngine
