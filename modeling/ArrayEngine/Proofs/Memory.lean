/-
What reads and writes of an arena come to.

A range that lies in the arena can be read and written, and then the answer is a total function of the arena: `numbers`
for a read, `put` for a write. `AgreeOn` says that two arenas hold the same words in a range; reads of the range then
agree, and `agreeOn_put` says where a write leaves an arena as it was.
-/
import Mathlib.Tactic
import ArrayEngine.Buffer
import ArrayEngine.Proofs.Outcome

namespace ArrayEngine

/-! ## Sizes -/

namespace Size

theorem checked_eq_ok {n k : Nat} : checked n = .ok k ↔ n < bound ∧ n = k := by
  unfold checked
  split_ifs with h <;> simp [h]

theorem checked_eq_error {n : Nat} {f : Fault} : checked n = .error f ↔ bound ≤ n ∧ f = .overflow := by
  unfold checked
  split_ifs with h <;> simp [h, eq_comm, Nat.not_le.2, Nat.not_lt.1]

theorem add_eq_ok {a b k : Nat} : add a b = .ok k ↔ a + b < bound ∧ a + b = k := checked_eq_ok

theorem mul_eq_ok {a b k : Nat} : mul a b = .ok k ↔ a * b < bound ∧ a * b = k := checked_eq_ok

theorem allocatable_eq_ok {n : Nat} {u : Unit} : allocatable n = .ok u ↔ wordBytes * n < allocationBound := by
  unfold allocatable
  split_ifs with h <;> simp [h]

/-- a number of words that can be allocated is a size, and so is its number of bytes -/
theorem lt_bound_of_allocatable {n : Nat} (h : wordBytes * n < allocationBound) : wordBytes * n < bound := by
  simp only [wordBytes, allocationBound, bound] at *
  omega

/-- whether every product of first extents is a size -/
def Multipliable (extents : List Nat) : Prop := ∀ front, front <+: extents → front.prod < bound

theorem foldlM_mul_eq_ok {extents : List Nat} {a k : Nat} (ha : a < bound) :
    extents.foldlM mul a = .ok k ↔ (∀ front, front <+: extents → a * front.prod < bound) ∧ a * extents.prod = k := by
  induction extents generalizing a with
  | nil => simp [ha]
  | cons x rest ih =>
    have hfronts : (∀ front, front <+: x :: rest → a * front.prod < bound) ↔
        ∀ front, front <+: rest → a * x * front.prod < bound := by
      refine ⟨fun h front hfront => ?_, fun h front hfront => ?_⟩
      · rw [Nat.mul_assoc, ← List.prod_cons]
        exact h _ (List.cons_prefix_cons.2 ⟨rfl, hfront⟩)
      · rcases List.prefix_cons_iff.1 hfront with rfl | ⟨front, rfl, hrest⟩
        · rwa [List.prod_nil, Nat.mul_one]
        · rw [List.prod_cons, ← Nat.mul_assoc]
          exact h front hrest
    simp only [List.foldlM_cons, bind_eq_ok, mul_eq_ok, hfronts, List.prod_cons, ← Nat.mul_assoc]
    refine ⟨?_, ?_⟩
    · intro hok
      obtain ⟨_, ⟨hx, rfl⟩, hrest⟩ := hok
      exact (ih hx).1 hrest
    · intro hspec
      have hx : a * x < bound := by simpa using hspec.1 [] List.nil_prefix
      exact ⟨_, ⟨hx, rfl⟩, (ih hx).2 hspec⟩

/-- extents are multiplied from the left, and every product on the way has to be a size -/
theorem product_eq_ok_iff {extents : List Nat} {k : Nat} :
    product extents = .ok k ↔ Multipliable extents ∧ extents.prod = k := by
  have hone : 1 < bound := by decide
  have hfold := @foldlM_mul_eq_ok extents 1 k hone
  simp only [Nat.one_mul] at hfold
  exact hfold

theorem product_eq_ok {extents : List Nat} {k : Nat} (h : product extents = .ok k) : k = extents.prod :=
  (product_eq_ok_iff.1 h).2.symm

/-- there is no product of extents exactly if one on the way is no size -/
theorem exists_product_eq_error {extents : List Nat} :
    (∃ f, product extents = .error f) ↔ ¬Multipliable extents := by
  cases hproduct : product extents with
  | ok k =>
    have hfits : Multipliable extents := (product_eq_ok_iff.1 hproduct).1
    simp [hfits]
  | error f =>
    have hover : ¬Multipliable extents := by
      intro hfits
      cases hproduct.symm.trans (product_eq_ok_iff.2 ⟨hfits, rfl⟩)
    simp [hover]

/-- a number of elements is a size -/
theorem lt_of_product {extents : List Nat} {n : Nat} (h : product extents = .ok n) : n < bound := by
  obtain ⟨hfronts, rfl⟩ := product_eq_ok_iff.1 h
  exact hfronts extents List.prefix_rfl

theorem product_single {n : Nat} : product [n] = checked n := by
  simp only [product, List.foldlM_cons, List.foldlM_nil, mul, Nat.one_mul]
  cases checked n <;> rfl

theorem product_pair_eq_ok {m n k : Nat} (h : product [m, n] = .ok k) : mul m n = .ok k := by
  have hprod : m * n = k := by simpa using (product_eq_ok h).symm
  exact mul_eq_ok.2 ⟨hprod ▸ lt_of_product h, hprod⟩

end Size

/-! ## Words of an arena -/

namespace Arena

/-- the arena with the given words from `offset` on, as far as it reaches -/
def put (a : Arena) (offset : Nat) (values : List UInt32) : Arena := ⟨overwrite a.words offset values⟩

/-- the `len` numbers from `offset` on, as far as the arena reaches -/
def numbers (a : Arena) (offset len : Nat) : List Single := (a.words.extract offset (offset + len)).toList.map Single.mk

/-- whether two arenas hold the same words in a range -/
def AgreeOn (a a' : Arena) (offset len : Nat) : Prop :=
  ∀ i, offset ≤ i → i < offset + len → a'.words[i]? = a.words[i]?

theorem size_overwrite (words : Array UInt32) (i : Nat) (vs : List UInt32) :
    (overwrite words i vs).size = words.size := by
  induction vs generalizing words i with
  | nil => rfl
  | cons v vs ih => simp only [overwrite, ih, Array.size_setIfInBounds]

theorem getElem?_overwrite (words : Array UInt32) (i : Nat) (vs : List UInt32) (hi : i + vs.length ≤ words.size)
    (j : Nat) : (overwrite words i vs)[j]? = if i ≤ j ∧ j < i + vs.length then vs[j - i]? else words[j]? := by
  induction vs generalizing words i with
  | nil =>
    have : ¬(i ≤ j ∧ j < i) := by omega
    simp [overwrite, this]
  | cons v vs ih =>
    simp only [List.length_cons] at hi
    rw [overwrite, ih _ _ (by rw [Array.size_setIfInBounds]; omega), Array.getElem?_setIfInBounds]
    by_cases hj : i = j
    · subst hj
      have h1 : ¬(i + 1 ≤ i ∧ i < i + 1 + vs.length) := by omega
      have h2 : i < words.size := by omega
      simp [h2]
    · have h1 : (i ≤ j ∧ j < i + (vs.length + 1)) ↔ (i + 1 ≤ j ∧ j < i + 1 + vs.length) := by omega
      simp only [List.length_cons, h1, hj, if_false]
      split_ifs with h2
      · have h3 : j - i = j - (i + 1) + 1 := by omega
        rw [h3, List.getElem?_cons_succ]
      · rfl

@[simp]
theorem size_put (a : Arena) (offset : Nat) (values : List UInt32) : (a.put offset values).size = a.size :=
  size_overwrite a.words offset values

theorem checkRange_eq_ok {a : Arena} {offset len : Nat} {u : Unit} :
    a.checkRange offset len = .ok u ↔ offset + len < Size.bound ∧ offset + len ≤ a.size := by
  simp only [checkRange, bind_eq_ok, Size.add_eq_ok, ite_pure_eq_ok]
  refine ⟨?_, ?_⟩
  · intro hok
    obtain ⟨_, ⟨h, rfl⟩, h', -⟩ := hok
    exact ⟨h, h'⟩
  · intro hspec
    obtain ⟨h, h'⟩ := hspec
    exact ⟨_, ⟨h, rfl⟩, h', trivial⟩

theorem floats_eq_ok {a : Arena} {offset len : Nat} {xs : List Single} :
    a.floats offset len = .ok xs ↔
      (offset + len < Size.bound ∧ offset + len ≤ a.size) ∧ a.numbers offset len = xs := by
  simp only [floats, read, bind_eq_ok, checkRange_eq_ok, pure_eq_ok, numbers]
  refine ⟨?_, ?_⟩
  · intro hok
    obtain ⟨_, ⟨_, h, rfl⟩, rfl⟩ := hok
    exact ⟨h, rfl⟩
  · intro hspec
    obtain ⟨h, rfl⟩ := hspec
    exact ⟨_, ⟨(), h, rfl⟩, rfl⟩

theorem write_eq_ok {a a' : Arena} {offset : Nat} {values : List UInt32} :
    a.write offset values = .ok a' ↔
      (offset + values.length < Size.bound ∧ offset + values.length ≤ a.size) ∧ a.put offset values = a' := by
  simp only [write, bind_eq_ok, checkRange_eq_ok, pure_eq_ok, put, exists_const]

theorem length_numbers {a : Arena} {offset len : Nat} (h : offset + len ≤ a.size) :
    (a.numbers offset len).length = len := by
  simp only [numbers, List.length_map, Array.length_toList, Array.size_extract]
  simp only [size] at h
  omega

theorem getElem?_numbers (a : Arena) (offset len i : Nat) :
    (a.numbers offset len)[i]? = if i < len then a.words[offset + i]?.map Single.mk else none := by
  simp only [numbers, List.getElem?_map, Array.getElem?_toList, Array.getElem?_extract]
  split_ifs with h1 h2 h2
  · rfl
  · omega
  · have : a.words.size ≤ offset + i := by omega
    simp [Array.getElem?_eq_none this]
  · rfl

theorem numbers_congr {a a' : Arena} {offset len : Nat} (h : AgreeOn a a' offset len) :
    a'.numbers offset len = a.numbers offset len := by
  apply List.ext_getElem?
  intro i
  rw [getElem?_numbers, getElem?_numbers]
  split_ifs with hi
  · rw [h (offset + i) (by omega) (by omega)]
  · rfl

theorem AgreeOn.refl (a : Arena) (offset len : Nat) : AgreeOn a a offset len := fun _ _ _ => rfl

theorem AgreeOn.trans {a b c : Arena} {offset len : Nat} (hab : AgreeOn a b offset len) (hbc : AgreeOn b c offset len) :
    AgreeOn a c offset len := fun i h1 h2 => (hbc i h1 h2).trans (hab i h1 h2)

/-- agreement on a range is agreement on each part of it -/
theorem AgreeOn.mono {a a' : Arena} {offset len offset' len' : Nat} (h : AgreeOn a a' offset len)
    (h1 : offset ≤ offset') (h2 : offset' + len' ≤ offset + len) : AgreeOn a a' offset' len' :=
  fun i hi hi' => h i (by omega) (by omega)

/-- a write leaves every range apart from its own as it was -/
theorem agreeOn_put {a : Arena} {offset : Nat} {values : List UInt32} (h : offset + values.length ≤ a.size)
    {offset' len' : Nat} (hd : offset + values.length ≤ offset' ∨ offset' + len' ≤ offset) :
    AgreeOn a (a.put offset values) offset' len' := by
  intro i hi hi'
  have : ¬(offset ≤ i ∧ i < offset + values.length) := by omega
  rw [put, getElem?_overwrite _ _ _ h, if_neg this]

/-- a part of what is written, read back -/
theorem extract_put {a : Arena} {offset : Nat} {values : List UInt32} (h : offset + values.length ≤ a.size) {i n : Nat}
    (hn : i + n ≤ values.length) :
    ((a.put offset values).words.extract (offset + i) (offset + i + n)).toList = (values.drop i).take n := by
  apply List.ext_getElem?
  intro j
  have hsize : a.size = a.words.size := rfl
  simp only [put, Array.getElem?_toList, Array.getElem?_extract, size_overwrite, List.getElem?_take,
    List.getElem?_drop]
  by_cases hj : j < n
  · have h1 : j < min (offset + i + n) a.words.size - (offset + i) := by omega
    have h2 : offset ≤ offset + i + j ∧ offset + i + j < offset + values.length := by omega
    rw [if_pos h1, if_pos hj, getElem?_overwrite _ _ _ h, if_pos h2]
    congr 1
    omega
  · have h1 : ¬j < min (offset + i + n) a.words.size - (offset + i) := by omega
    rw [if_neg h1, if_neg hj]

/-- numbers that are written are read back -/
theorem numbers_put {a : Arena} {offset : Nat} {xs : List Single} (h : offset + xs.length ≤ a.size) :
    (a.put offset (xs.map Single.bits)).numbers offset xs.length = xs := by
  have h' : offset + (xs.map Single.bits).length ≤ a.size := by rwa [List.length_map]
  have hx := extract_put h' (i := 0) (n := xs.length) (by simp)
  rw [Nat.add_zero] at hx
  rw [numbers, hx]
  simp [List.take_of_length_le, Function.comp_def]

/-- the arena with `count` more words, all zero -/
def grow (a : Arena) (count : Nat) : Arena := ⟨a.words ++ Array.replicate count 0⟩

@[simp]
theorem size_grow (a : Arena) (count : Nat) : (a.grow count).size = a.size + count := by
  simp [grow, size]

theorem agreeOn_grow (a : Arena) (count : Nat) : AgreeOn a (a.grow count) 0 a.size := by
  intro i _ hi
  rw [Nat.zero_add] at hi
  exact Array.getElem?_append_left hi

theorem append_eq_ok {a : Arena} {count : Nat} {r : Nat × Arena} :
    a.append count = .ok r ↔
      Size.wordBytes * (a.size + count) < Size.allocationBound ∧ (a.size, a.grow count) = r := by
  simp only [append, bind_eq_ok, Size.add_eq_ok, Size.allocatable_eq_ok, pure_eq_ok, exists_const, grow]
  refine ⟨?_, ?_⟩
  · intro hok
    obtain ⟨_, ⟨-, rfl⟩, h⟩ := hok
    exact h
  · intro hspec
    obtain ⟨h, h'⟩ := hspec
    refine ⟨_, ⟨?_, rfl⟩, h, h'⟩
    have := Size.lt_bound_of_allocatable h
    simp only [Size.wordBytes] at this
    omega

/-! ## Headers -/

theorem headerExtents_eq_ok {a : Arena} {kind : Kind} {offset : Nat} {extents : List Nat} :
    a.headerExtents kind offset = .ok extents ↔
      offset / Size.wordBytes + kind.rank ≤ a.size ∧
        Header.decode (a.words.extract (offset / Size.wordBytes) (offset / Size.wordBytes + kind.rank)).toList =
          extents := by
  simp only [headerExtents, slice, bind_eq_ok, pure_eq_ok]
  split_ifs with h
  · simp [h.2]
  · have : ¬offset / Size.wordBytes + kind.rank ≤ a.size := by omega
    simp [this]

/-- a header is read alike in arenas that agree on it -/
theorem headerExtents_congr {a a' : Arena} {kind : Kind} {offset : Nat} {extents : List Nat}
    (h : a.headerExtents kind offset = .ok extents) (hsize : a.size ≤ a'.size)
    (hag : AgreeOn a a' (offset / Size.wordBytes) kind.rank) : a'.headerExtents kind offset = .ok extents := by
  obtain ⟨hle, hdec⟩ := headerExtents_eq_ok.1 h
  refine headerExtents_eq_ok.2 ⟨by omega, ?_⟩
  rw [← hdec]
  congr 1
  apply List.ext_getElem?
  intro i
  simp only [Array.getElem?_toList, Array.getElem?_extract]
  simp only [size] at hle hsize
  split_ifs with h1 h2 h2
  · exact hag _ (by omega) (by omega)
  · omega
  · omega
  · rfl

end Arena

end ArrayEngine
