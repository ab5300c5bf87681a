/-
Finite maps from names, kept in the order of the names.

The entries are a list, strictly ascending by name, so two maps with the same entries are equal and the list is the
order in which everything is listed and written. Names are compared code point by code point.
-/

namespace ArrayEngine

/-- a map from names, as its entries in ascending order -/
structure NameMap (α : Type) where
  entries : List (String × α)
  ascending : entries.Pairwise fun a b => a.1 < b.1

namespace NameMap

variable {α : Type}

/-- the entries with the value of `name` set to `value` -/
def putEntry (name : String) (value : α) : List (String × α) → List (String × α)
  | [] => [(name, value)]
  | (n, v) :: rest =>
    if name < n then (name, value) :: (n, v) :: rest
    else if name = n then (name, value) :: rest
    else (n, v) :: putEntry name value rest

theorem mem_putEntry {name : String} {value : α} {entries : List (String × α)} {e : String × α}
    (h : e ∈ putEntry name value entries) : e = (name, value) ∨ e ∈ entries := by
  induction entries with
  | nil => simpa [putEntry] using h
  | cons hd rest ih =>
    simp only [putEntry] at h
    split at h
    · simpa using h
    · split at h
      · rcases List.mem_cons.1 h with h | h
        · exact .inl h
        · exact .inr (List.mem_cons_of_mem _ h)
      · rcases List.mem_cons.1 h with h | h
        · exact .inr (h ▸ List.mem_cons_self)
        · exact (ih h).imp id (List.mem_cons_of_mem _)

theorem ascending_putEntry (name : String) (value : α) {entries : List (String × α)}
    (h : entries.Pairwise fun a b => a.1 < b.1) :
    (putEntry name value entries).Pairwise fun a b => a.1 < b.1 := by
  induction entries with
  | nil => simp [putEntry]
  | cons hd rest ih =>
    obtain ⟨hhd, hrest⟩ := List.pairwise_cons.1 h
    simp only [putEntry]
    split
    · next hlt =>
      refine List.pairwise_cons.2 ⟨fun e he => ?_, h⟩
      rcases List.mem_cons.1 he with rfl | he
      · exact hlt
      · exact String.lt_trans hlt (hhd e he)
    · next hnlt =>
      split
      · next heq => exact List.pairwise_cons.2 ⟨fun e he => heq ▸ hhd e he, hrest⟩
      · next hne =>
        refine List.pairwise_cons.2 ⟨fun e he => ?_, ih hrest⟩
        rcases mem_putEntry he with rfl | he
        · have hle : hd.1 ≤ name := String.not_lt.1 hnlt
          refine Classical.byContradiction fun hc => hne ?_
          exact String.le_antisymm (String.not_lt.1 hc) hle
        · exact hhd e he

theorem find?_putEntry_self (name : String) (value : α) (entries : List (String × α)) :
    (putEntry name value entries).find? (·.1 == name) = some (name, value) := by
  induction entries with
  | nil => simp [putEntry]
  | cons hd rest ih =>
    simp only [putEntry]
    split
    · simp
    · split
      · simp
      · next hne => rw [List.find?_cons_of_neg (by simpa using Ne.symm hne), ih]

theorem find?_putEntry_of_ne {name other : String} (h : other ≠ name) (value : α) (entries : List (String × α)) :
    (putEntry name value entries).find? (·.1 == other) = entries.find? (·.1 == other) := by
  have hname : (name == other) = false := by simpa using Ne.symm h
  induction entries with
  | nil => simp [putEntry, hname]
  | cons hd rest ih =>
    simp only [putEntry]
    split
    · simp only [List.find?_cons, hname]
    · split
      · next heq => simp only [List.find?_cons, ← heq, hname]
      · simp only [List.find?_cons, ih]

def empty : NameMap α := ⟨[], .nil⟩

instance : EmptyCollection (NameMap α) := ⟨empty⟩

/-- the value of a name -/
def get? (m : NameMap α) (name : String) : Option α :=
  (m.entries.find? (·.1 == name)).map (·.2)

def contains (m : NameMap α) (name : String) : Bool := (m.get? name).isSome

/-- the map with the value of `name` set to `value`, whether it had one or not -/
def put (m : NameMap α) (name : String) (value : α) : NameMap α :=
  ⟨putEntry name value m.entries, ascending_putEntry name value m.ascending⟩

theorem get?_put_self (m : NameMap α) (name : String) (value : α) : (m.put name value).get? name = some value := by
  simp [get?, put, find?_putEntry_self]

theorem get?_put_of_ne (m : NameMap α) {name other : String} (h : other ≠ name) (value : α) :
    (m.put name value).get? other = m.get? other := by
  simp [get?, put, find?_putEntry_of_ne h]

/-- the map with the value of `name` set to `value`, unless it has one -/
def putNew (m : NameMap α) (name : String) (value : α) : NameMap α :=
  if m.contains name then m else m.put name value

/-- the map without a name -/
def erase (m : NameMap α) (name : String) : NameMap α :=
  ⟨m.entries.filter (·.1 != name), m.ascending.filter _⟩

def names (m : NameMap α) : List String := m.entries.map (·.1)

def size (m : NameMap α) : Nat := m.entries.length

def isEmpty (m : NameMap α) : Bool := m.entries.isEmpty

instance [DecidableEq α] : DecidableEq (NameMap α) := fun a b =>
  if h : a.entries = b.entries then
    .isTrue (by cases a; cases b; simpa using h)
  else .isFalse fun hab => h (hab ▸ rfl)

end NameMap

end ArrayEngine
