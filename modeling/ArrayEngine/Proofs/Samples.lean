/-
How many numbers a sample has, how many words it draws, and that shorter samples begin longer ones.

`Sampling.numbers` takes numbers two at a time. `Drawing` takes them as a program does: a turn draws two words, adds the
first number they give, and adds the second one only if there is still room for it; `Drawing.loop` takes turns until
there are enough numbers. `Sampling.sample` takes the memory for all of them first.
- `normal` is the number at a place of the stream. Which words it comes from depends on its place, and not on how many
  numbers are asked for;
- `numbers_eq`: the first of these numbers are taken, and two words are drawn for every two of them and for an odd last
  one;
- `partial_turn` is the step and `partial_loop` the run: so does the loop, which ends;
- `sample_eq_ok`: a sample is these numbers wherever an allocation holds them, and `sample_full`: else there is none;
- `sample_begins_longer`: so samples of one stream agree as far as both go, and so do the arrays that are filled with
  them.
-/
import Mathlib.Algebra.Order.Floor.Div
import ArrayEngine.Sampling
import ArrayEngine.Proofs.Memory

namespace ArrayEngine.Sampling

variable {f : Elementary} {std : Single} {words : Nat → UInt32}

/-! ## Samples by place -/

/-- the number at place `i` of the stream that starts at position `pos`: the first or the second one of its two words -/
def normal (f : Elementary) (std : Single) (words : Nat → UInt32) (pos i : Nat) : Single :=
  let numbers := pair f std (words (pos + 2 * (i / 2))) (words (pos + 2 * (i / 2) + 1))
  if i % 2 = 0 then numbers.1 else numbers.2

/-- the first `n` numbers of the stream -/
def normals (f : Elementary) (std : Single) (words : Nat → UInt32) (pos n : Nat) : List Single :=
  (List.range n).map (normal f std words pos)

/-- the words that are drawn for `n` numbers: two for every two of them, and two for an odd last one -/
def drawn (n : Nat) : Nat := 2 * (n ⌈/⌉ 2)

theorem drawn_eq (n : Nat) : drawn n = 2 * ((n + 1) / 2) := by
  rw [drawn, Nat.ceilDiv_eq_add_pred_div]
  rfl

theorem length_normals (pos n : Nat) : (normals f std words pos n).length = n := by
  rw [normals, List.length_map, List.length_range]

theorem normals_succ (pos n : Nat) :
    normals f std words pos (n + 1) = normals f std words pos n ++ [normal f std words pos n] := by
  simp only [normals, List.range_succ, List.map_append, List.map_cons, List.map_nil]

/-- the numbers behind the first two are those of the stream two words on -/
theorem normal_add_two (pos i : Nat) : normal f std words pos (i + 2) = normal f std words (pos + 2) i := by
  have hplace : pos + 2 * ((i + 2) / 2) = pos + 2 + 2 * (i / 2) := by omega
  rw [normal, normal, hplace, Nat.add_mod_right]

theorem normals_add_two (pos n : Nat) : normals f std words pos (n + 2) =
    normal f std words pos 0 :: normal f std words pos 1 :: normals f std words (pos + 2) n := by
  simp only [normals, List.range_succ_eq_map, List.map_cons, List.map_map, Function.comp_def, normal_add_two]

/-- fewer numbers are the first ones of more -/
theorem take_normals {n n' : Nat} (h : n ≤ n') (pos : Nat) :
    (normals f std words pos n').take n = normals f std words pos n := by
  rw [normals, ← List.map_take, List.take_range, Nat.min_eq_left h, normals]

/-- the numbers come from the words that are drawn for them -/
theorem normals_congr {words' : Nat → UInt32} {pos n : Nat}
    (h : ∀ i, pos ≤ i → i < pos + drawn n → words' i = words i) :
    normals f std words' pos n = normals f std words pos n := by
  refine List.map_congr_left fun i hi => ?_
  have hlt := List.mem_range.1 hi
  rw [drawn_eq] at h
  rw [normal, normal, h _ (by omega) (by omega), h _ (by omega) (by omega)]

/-- **Numbers.** They are the first ones of the stream, and every two of them took two words. -/
theorem numbers_eq (len pos : Nat) :
    numbers f std words len pos = (normals f std words pos len, pos + drawn len) := by
  fun_induction numbers f std words len pos with
  | case1 pos => rfl
  | case2 pos => rfl
  | case3 len pos x y hpair rest after hrest ih =>
    rw [ih, Prod.mk.injEq] at hrest
    obtain ⟨rfl, rfl⟩ := hrest
    have hfirst : normal f std words pos 0 = x := by simp [normal, hpair]
    have hsecond : normal f std words pos 1 = y := by simp [normal, hpair]
    rw [normals_add_two, hfirst, hsecond, drawn_eq, drawn_eq]
    congr 1
    omega

/-- **Samples.** A sample is the first numbers of the stream, if an allocation holds them. -/
theorem sample_eq_ok {len pos : Nat} {r : List Single × Nat} : sample f std words len pos = .ok r ↔
    Size.wordBytes * len < Size.allocationBound ∧ (normals f std words pos len, pos + drawn len) = r := by
  simp only [sample, bind_eq_ok, Size.allocatable_eq_ok, numbers_eq, pure_eq_ok, exists_const]

theorem length_sample {len pos : Nat} {r : List Single × Nat} (h : sample f std words len pos = .ok r) :
    r.1.length = len := by
  obtain ⟨-, rfl⟩ := sample_eq_ok.1 h
  exact length_normals pos len

/-- No allocation holds `0x2000000000000000` numbers of four bytes: there is no sample of this length. -/
theorem sample_full : ¬∀ (f : Elementary) (std : Single) (words : Nat → UInt32) (len pos : Nat),
    ∃ xs, sample f std words len pos = .ok (xs, pos + 2 * (len ⌈/⌉ 2)) ∧ xs.length = len := by
  intro h
  obtain ⟨xs, hxs, -⟩ := h ⟨id, id, id, id⟩ two (fun _ => 0) 0x2000000000000000 0
  exact absurd (sample_eq_ok.1 hxs).1 (by decide)

/-! ## Samples by turns -/

/-- a sample that is being taken: the numbers so far, and the position of the next word -/
structure Drawing where
  values : List Single
  pos : Nat

namespace Drawing

/-- one turn: two words are drawn, and the second number is left out if the first one was the last -/
def turn (f : Elementary) (std : Single) (words : Nat → UInt32) (len : Nat) (d : Drawing) : Drawing :=
  let (x, y) := pair f std (words d.pos) (words (d.pos + 1))
  let values := d.values ++ [x]
  ⟨if values.length < len then values ++ [y] else values, d.pos + 2⟩

theorem length_turn (f : Elementary) (std : Single) (words : Nat → UInt32) (len : Nat) (d : Drawing) :
    d.values.length < (d.turn f std words len).values.length := by
  simp only [turn]
  split_ifs <;> simp

/-- turns until there are `len` numbers -/
def loop (f : Elementary) (std : Single) (words : Nat → UInt32) (len : Nat) (d : Drawing) : Drawing :=
  if d.values.length < len then loop f std words len (d.turn f std words len) else d
  termination_by len - d.values.length
  decreasing_by
    have := length_turn f std words len d
    omega

/-- what there is between two turns: the first numbers of the stream from `start` on, no more than `len`, and in pairs
until they are complete -/
structure Partial (f : Elementary) (std : Single) (words : Nat → UInt32) (start len : Nat) (d : Drawing) : Prop where
  values : d.values = normals f std words start d.values.length
  pos : d.pos = start + drawn d.values.length
  length_le : d.values.length ≤ len
  paired : d.values.length < len → d.values.length % 2 = 0

variable {start len : Nat} {d : Drawing}

theorem partial_start (f : Elementary) (std : Single) (words : Nat → UInt32) (start len : Nat) :
    Partial f std words start len ⟨[], start⟩ where
  values := rfl
  pos := by simp [drawn_eq]
  length_le := Nat.zero_le len
  paired _ := rfl

/-- the words of a turn that starts after whole pairs give the next two numbers of the stream -/
theorem pair_eq_normals (start : Nat) {n : Nat} (heven : n % 2 = 0) :
    pair f std (words (start + drawn n)) (words (start + drawn n + 1)) =
      (normal f std words start n, normal f std words start (n + 1)) := by
  have hplace : drawn n = 2 * (n / 2) := by
    rw [drawn_eq]
    omega
  have hhalf : (n + 1) / 2 = n / 2 := by omega
  have hodd : (n + 1) % 2 ≠ 0 := by omega
  simp only [normal, hplace, hhalf, heven, hodd, if_true, if_false]

/-- **One turn.** The next two numbers of the stream are added, or the next one if that is the last. -/
theorem partial_turn (h : Partial f std words start len d) (hlt : d.values.length < len) :
    Partial f std words start len (d.turn f std words len) := by
  obtain ⟨values, pos⟩ := d
  obtain ⟨hvalues, hpos, -, hpaired⟩ := h
  dsimp only at hvalues hpos hpaired hlt
  have heven := hpaired hlt
  subst hpos
  have hone : normals f std words start (values.length + 1) = values ++ [normal f std words start values.length] := by
    rw [normals_succ, ← hvalues]
  have htwo : normals f std words start (values.length + 1 + 1) = values ++ [normal f std words start values.length] ++
      [normal f std words start (values.length + 1)] := by
    rw [normals_succ, hone]
  simp only [turn, pair_eq_normals start heven, List.length_append, List.length_singleton]
  split_ifs with hroom
  · refine ⟨?_, ?_, ?_, fun _ => ?_⟩ <;> simp only [List.length_append, List.length_singleton, drawn_eq]
    · exact htwo.symm
    · omega
    · omega
    · omega
  · -- the first number was the last one
    refine ⟨?_, ?_, ?_, ?_⟩ <;> simp only [List.length_append, List.length_singleton, drawn_eq]
    · exact hone.symm
    · omega
    · omega
    · exact fun hmore => absurd hmore hroom

/-- **All turns.** When the loop ends, there are as many numbers as were asked for. -/
theorem partial_loop (h : Partial f std words start len d) :
    Partial f std words start len (d.loop f std words len) ∧ (d.loop f std words len).values.length = len := by
  fun_induction loop f std words len d with
  | case1 d hlt ih => exact ih (partial_turn h hlt)
  | case2 d hge => exact ⟨h, Nat.le_antisymm h.length_le (Nat.not_lt.1 hge)⟩

theorem loop_eq (len pos : Nat) :
    loop f std words len ⟨[], pos⟩ = ⟨normals f std words pos len, pos + drawn len⟩ := by
  obtain ⟨h, hlen⟩ := partial_loop (partial_start f std words pos len)
  have hvalues := h.values
  have hpos := h.pos
  rw [hlen] at hvalues hpos
  generalize loop f std words len ⟨[], pos⟩ = d at hvalues hpos
  obtain ⟨_, _⟩ := d
  cases hvalues
  cases hpos
  rfl

end Drawing

/-! ## Arrays of samples -/

/-- an array is filled with a sample of as many numbers as it has elements -/
theorem tensor_eq {shape : Shape} {n : Nat} (hcount : shape.elementCount = .ok n) {pos after : Nat} {xs : List Single}
    (h : sample f std words n pos = .ok (xs, after)) :
    tensor f std words shape pos = .ok (⟨shape, .owned xs⟩, after) := by
  rw [tensor, hcount, ok_bind, h]
  rfl

/-- **Shorter samples begin longer ones.** Whatever the elementary functions, the deviation and the words are, and where
an allocation holds `len'` numbers: a sample of `len ≤ len'` numbers is what the turns come to, which end. It has `len`
numbers, two words were drawn for every two of them and for an odd last one, and no other word is looked at. It begins
the sample of `len'` numbers from the same words; so two arrays that are filled from there agree, row by row, as far as
the shorter one goes. -/
theorem sample_begins_longer (f : Elementary) (std : Single) (words : Nat → UInt32) (pos : Nat) {len len' : Nat}
    (h : len ≤ len') (hroom : Size.wordBytes * len' < Size.allocationBound) : ∃ xs ys,
      sample f std words len pos = .ok (xs, pos + 2 * (len ⌈/⌉ 2)) ∧
      sample f std words len' pos = .ok (ys, pos + 2 * (len' ⌈/⌉ 2)) ∧
      Drawing.loop f std words len ⟨[], pos⟩ = ⟨xs, pos + 2 * (len ⌈/⌉ 2)⟩ ∧
      xs.length = len ∧ ys.length = len' ∧ ys.take len = xs ∧
      (∀ words' : Nat → UInt32, (∀ i, pos ≤ i → i < pos + 2 * (len ⌈/⌉ 2) → words' i = words i) →
        sample f std words' len pos = .ok (xs, pos + 2 * (len ⌈/⌉ 2))) ∧
      ∀ shape shape' : Shape, shape.elementCount = .ok len → shape'.elementCount = .ok len' →
        tensor f std words shape pos = .ok (⟨shape, .owned xs⟩, pos + 2 * (len ⌈/⌉ 2)) ∧
        tensor f std words shape' pos = .ok (⟨shape', .owned ys⟩, pos + 2 * (len' ⌈/⌉ 2)) := by
  have hshort : Size.wordBytes * len < Size.allocationBound := (Nat.mul_le_mul_left _ h).trans_lt hroom
  have hxs : sample f std words len pos = .ok (normals f std words pos len, pos + drawn len) :=
    sample_eq_ok.2 ⟨hshort, rfl⟩
  have hys : sample f std words len' pos = .ok (normals f std words pos len', pos + drawn len') :=
    sample_eq_ok.2 ⟨hroom, rfl⟩
  refine ⟨_, _, hxs, hys, Drawing.loop_eq len pos, length_normals pos len, length_normals pos len',
    take_normals h pos, ?_, ?_⟩
  · intro words' hwords
    rw [← normals_congr hwords]
    exact sample_eq_ok.2 ⟨hshort, rfl⟩
  · intro shape shape' hcount hcount'
    exact ⟨tensor_eq hcount hxs, tensor_eq hcount' hys⟩

/-- a vector of three numbers begins a matrix of four that is filled from the same words; both take four words -/
theorem sample_begins_longer_odd :
    let f : Elementary := ⟨id, id, id, id⟩
    let words : Nat → UInt32 := fun i => UInt32.ofNat (i * 0x01000000)
    3 ≤ 4 ∧ Size.wordBytes * 4 < Size.allocationBound ∧
    ∃ xs ys, tensor f two words (.vector 3) 0 = .ok (⟨.vector 3, .owned xs⟩, 4) ∧
      tensor f two words (.matrix 2 2) 0 = .ok (⟨.matrix 2 2, .owned ys⟩, 4) ∧ ys.take 3 = xs := by
  intro f words
  have hlen : 3 ≤ 4 := by decide
  have hroom : Size.wordBytes * 4 < Size.allocationBound := by decide
  obtain ⟨xs, ys, -, -, -, -, -, htake, -, harrays⟩ := sample_begins_longer f two words 0 hlen hroom
  obtain ⟨hxs, hys⟩ := harrays (.vector 3) (.matrix 2 2) rfl rfl
  exact ⟨hlen, hroom, xs, ys, hxs, hys, htake⟩

end ArrayEngine.Sampling
