/-
Numbers as they are written are read back.

- `Size.read_write`: a size;
- `Single.read_write_literal`: a number in the literal layout, with the sign of zero and the infinities. What is no
  number is written as one word, and read back as one pattern (`readBack`). Of the three ways to set the digits out,
  two give back the very decimal that was written; a whole number gets a point and one more digit, and
  `magnitude_shift` takes that back. `isNumeral` holds of every character that is written (`isNumeral_of_mem_write`);
  none of them is blank or a separator.
-/
import ArrayEngine.Proofs.Rounding
import ArrayEngine.Single.Literal
import ArrayEngine.Single.Text
import ArrayEngine.Size

namespace ArrayEngine

/-! ## Digits -/

/-- a text of digits -/
def Digits (cs : List Char) : Prop := ∀ c ∈ cs, c.isDigit = true

theorem digits_toDigits (n : Nat) : Digits (Nat.toDigits 10 n) :=
  fun _ hc => Nat.isDigit_of_mem_toDigits (by decide) le_rfl hc

theorem digits_replicate (k : Nat) : Digits (List.replicate k '0') := by
  intro c hc
  rw [List.eq_of_mem_replicate hc]
  rfl

theorem Digits.append {cs ds : List Char} (hc : Digits cs) (hd : Digits ds) : Digits (cs ++ ds) := by
  intro c h
  rcases List.mem_append.1 h with h | h
  · exact hc c h
  · exact hd c h

theorem Digits.take {cs : List Char} (h : Digits cs) (n : Nat) : Digits (cs.take n) :=
  fun c hc => h c (List.mem_of_mem_take hc)

theorem Digits.drop {cs : List Char} (h : Digits cs) (n : Nat) : Digits (cs.drop n) :=
  fun c hc => h c (List.mem_of_mem_drop hc)

theorem ne_of_isDigit {c d : Char} (hc : c.isDigit = true) (hd : d.isDigit = false) : c ≠ d := by
  intro h
  rw [h, hd] at hc
  cases hc

/-- digits, where something else follows -/
theorem takeWhile_digits {cs : List Char} (h : Digits cs) (rest : List Char)
    (hrest : ∀ c ∈ rest.head?, c.isDigit = false) :
    (cs ++ rest).takeWhile Char.isDigit = cs ∧ (cs ++ rest).dropWhile Char.isDigit = rest := by
  rw [List.takeWhile_append_of_pos h, List.dropWhile_append_of_pos h]
  cases rest with
  | nil => simp
  | cons c rest =>
    have hc : c.isDigit = false := hrest c rfl
    simp [hc]

/-- the characters that numbers are written with -/
def isNumeral (c : Char) : Bool := c.isDigit || decide (c ∈ ['-', '.', 'e', 'u', 'i', 'n', 'f', 'N', 'a'])

theorem isNumeral_of_isDigit {c : Char} (h : c.isDigit = true) : isNumeral c = true := by
  simp [isNumeral, h]

/-- digits after one other character -/
theorem isNumeral_of_digits {c : Char} {ds : List Char} (hds : Digits ds) (hc : isNumeral c = true) :
    ∀ d ∈ c :: ds, isNumeral d = true := by
  intro d hd
  rcases List.mem_cons.1 hd with rfl | hd
  · exact hc
  · exact isNumeral_of_isDigit (hds d hd)

theorem isNumeral_of_mem_writeInt {e : Int} {c : Char} (h : c ∈ Layout.writeInt e) : isNumeral c = true := by
  cases e with
  | ofNat n => exact isNumeral_of_isDigit (digits_toDigits n c h)
  | negSucc n => exact isNumeral_of_digits (digits_toDigits (n + 1)) rfl c h

/-! ## Sizes -/

/-- a size as it can be written: digits for a number below 2^64, perhaps after a plus sign -/
inductive Size.Numeral : List Char → Nat → Prop
  | mk {plus ds : List Char} (hplus : plus = [] ∨ plus = ['+']) (hds : Digits ds) (hne : ds ≠ [])
      (hbound : Nat.ofDigitChars 10 ds 0 < Size.bound) : Size.Numeral (plus ++ ds) (Nat.ofDigitChars 10 ds 0)

/-- what stands for a size -/
theorem Size.read_eq_some {cs : List Char} {n : Nat} : Size.read cs = some n ↔ Size.Numeral cs n := by
  constructor
  · intro h
    unfold Size.read at h
    split at h <;> simp only [Option.ite_none_right_eq_some, Option.some.injEq, List.all_eq_true] at h <;>
      obtain ⟨⟨hne, hds⟩, hbound, rfl⟩ := h
    · exact .mk (.inr rfl) hds hne hbound
    · exact .mk (.inl rfl) hds hne hbound
  · intro h
    obtain ⟨hplus, hds, hne, hbound⟩ := h
    have hall := List.all_eq_true.2 hds
    unfold Size.read
    rcases hplus with rfl | rfl
    · rw [List.nil_append]
      split
      · exact absurd (hds '+' List.mem_cons_self) (by decide)
      · simp [hne, hall, hbound]
    · simp [hne, hall, hbound]

theorem Size.read_write {n : Nat} (hn : n < Size.bound) : Size.read (Size.write n) = some n := by
  have hvalue : Nat.ofDigitChars 10 (Nat.toDigits 10 n) 0 = n := Nat.ofDigitChars_ten_toDigits
  have h : Size.Numeral ([] ++ Size.write n) (Nat.ofDigitChars 10 (Nat.toDigits 10 n) 0) :=
    .mk (.inl rfl) (digits_toDigits n) Nat.toDigits_ne_nil (hvalue.symm ▸ hn)
  rw [hvalue] at h
  exact Size.read_eq_some.2 h

/-! ## Decimals -/

namespace Single

theorem toLower_of_isDigit {c : Char} (h : c.isDigit = true) : c.toLower = c := by
  have hle : ¬(c.val ≥ 'A'.val ∧ c.val ≤ 'Z'.val) := by
    intro hc
    have h9 : c.val ≤ '9'.val := (Char.isDigit_iff_toNat.1 h).2
    exact absurd (UInt32.le_trans hc.1 h9) (by decide)
  exact dif_neg hle

/-- a text that starts with a digit is none of the words for special values -/
theorem readMagnitude_of_digit {c : Char} (hc : c.isDigit = true) (cs : List Char) :
    readMagnitude (c :: cs) = (readDecimal (c :: cs)).map Decimal.magnitude := by
  have hword : ∀ w ∈ ["inf".toList, "infinity".toList, "nan".toList], (c :: cs).map Char.toLower ≠ w := by
    intro w hw h
    rw [List.map_cons, toLower_of_isDigit hc] at h
    fin_cases hw <;> (obtain ⟨rfl, -⟩ := List.cons.inj h; cases hc)
  simp only [readMagnitude]
  rw [if_neg, if_neg]
  · exact hword _ (by simp)
  · intro h
    rcases h with h | h
    · exact hword _ (by simp) h
    · exact hword _ (by simp) h

/-- digits, a point and digits -/
theorem readDecimal_point {whole fraction : List Char} (hw : Digits whole) (hf : Digits fraction) (hne : whole ≠ []) :
    readDecimal (whole ++ '.' :: fraction) = some ⟨Nat.ofDigitChars 10 (whole ++ fraction) 0, -fraction.length⟩ := by
  obtain ⟨htake, hdrop⟩ := takeWhile_digits hw ('.' :: fraction) (by simp)
  obtain ⟨hftake, hfdrop⟩ := takeWhile_digits hf [] (by simp)
  rw [List.append_nil] at hftake hfdrop
  simp only [readDecimal, htake, hdrop, hftake, hfdrop]
  simp [hne]

/-- digits, perhaps a point and more digits, and an exponent -/
theorem readDecimal_exponent {whole fraction r : List Char} {e : Int} (hw : Digits whole) (hf : Digits fraction)
    (hne : whole ≠ []) (hr : readExponent r = some e) :
    readDecimal (whole ++ (if fraction = [] then [] else '.' :: fraction) ++ 'e' :: r) =
      some ⟨Nat.ofDigitChars 10 (whole ++ fraction) 0, e - fraction.length⟩ := by
  by_cases hfrac : fraction = []
  · obtain ⟨htake, hdrop⟩ := takeWhile_digits hw ('e' :: r) (by simp)
    rw [if_pos hfrac, List.append_nil]
    simp only [readDecimal, htake, hdrop]
    simp [hne, hfrac, hr]
  · obtain ⟨htake, hdrop⟩ := takeWhile_digits hw ('.' :: (fraction ++ 'e' :: r)) (by simp)
    obtain ⟨hftake, hfdrop⟩ := takeWhile_digits hf ('e' :: r) (by simp)
    rw [if_neg hfrac, List.append_assoc, List.cons_append]
    simp only [readDecimal, htake, hdrop, hftake, hfdrop, hr]
    simp [hne]

theorem readExponent_digits {ds : List Char} (h : Digits ds) (hne : ds ≠ []) :
    readExponent ds = some (Nat.ofDigitChars 10 ds 0 : Nat) := by
  have hall : ds.all Char.isDigit = true := List.all_eq_true.2 h
  cases ds with
  | nil => exact absurd rfl hne
  | cons c cs =>
    have hplus : c ≠ '+' := ne_of_isDigit (h c List.mem_cons_self) rfl
    have hminus : c ≠ '-' := ne_of_isDigit (h c List.mem_cons_self) rfl
    unfold readExponent
    split
    · next heq =>
      cases heq
      exact absurd rfl hplus
    · next heq =>
      cases heq
      exact absurd rfl hminus
    · simp [hall]

theorem readExponent_writeInt (e : Int) : readExponent (Layout.writeInt e) = some e := by
  cases e with
  | ofNat n =>
    rw [Layout.writeInt, readExponent_digits (digits_toDigits n) Nat.toDigits_ne_nil, Nat.ofDigitChars_ten_toDigits]
    rfl
  | negSucc n =>
    have hall : (Nat.toDigits 10 (n + 1)).all Char.isDigit = true := List.all_eq_true.2 (digits_toDigits (n + 1))
    have hcond : Nat.toDigits 10 (n + 1) ≠ [] ∧ (Nat.toDigits 10 (n + 1)).all Char.isDigit = true :=
      ⟨Nat.toDigits_ne_nil, hall⟩
    simp only [Layout.writeInt, readExponent, if_pos hcond, Nat.ofDigitChars_ten_toDigits]
    rfl

/-- a text that starts with a digit, has characters of numbers only, and stands for a magnitude -/
structure Numeral (cs : List Char) (m : Nat) : Prop where
  starts : ∃ c rest, cs = c :: rest ∧ c.isDigit = true
  chars : ∀ c ∈ cs, isNumeral c = true
  reads : (readDecimal cs).map Decimal.magnitude = some m

theorem Numeral.of_digits {whole rest : List Char} {m : Nat} (hw : Digits whole) (hne : whole ≠ [])
    (hrest : ∀ c ∈ rest, isNumeral c = true) (hread : (readDecimal (whole ++ rest)).map Decimal.magnitude = some m) :
    Numeral (whole ++ rest) m where
  starts := by
    cases whole with
    | nil => exact absurd rfl hne
    | cons c cs => exact ⟨c, cs ++ rest, rfl, hw c List.mem_cons_self⟩
  chars c hc := by
    rcases List.mem_append.1 hc with hc | hc
    · exact isNumeral_of_isDigit (hw c hc)
    · exact hrest c hc
  reads := hread

theorem Numeral.readMagnitude_eq {cs : List Char} {m : Nat} (h : Numeral cs m) : readMagnitude cs = some m := by
  obtain ⟨c, rest, rfl, hc⟩ := h.starts
  rw [readMagnitude_of_digit hc, h.reads]

theorem numeral_positional (q : Nat) (e : Int) :
    Numeral (Layout.writePositional true (Nat.toDigits 10 q) e) (Decimal.magnitude ⟨q, e⟩) := by
  have hds := digits_toDigits q
  cases e with
  | ofNat k =>
    have hwhole := hds.append (digits_replicate k)
    have hzero : Digits ['0'] := digits_replicate 1
    have hne : Nat.toDigits 10 q ++ List.replicate k '0' ≠ [] := by simp
    have hvalue : Nat.ofDigitChars 10 (Nat.toDigits 10 q ++ List.replicate k '0' ++ ['0']) 0 = q * 10 ^ (k + 1) := by
      rw [List.append_assoc, ← List.replicate_succ', Nat.ofDigitChars_append, Nat.ofDigitChars_ten_toDigits,
        Nat.ofDigitChars_replicate_zero, Nat.mul_comm]
    refine .of_digits hwhole hne (isNumeral_of_digits hzero rfl) ?_
    rw [if_pos rfl, readDecimal_point hwhole hzero hne, hvalue]
    exact congrArg some (Decimal.magnitude_shift q k)
  | negSucc k =>
    -- zeros in front, so that at least one digit stands before the point
    have hpadded := (digits_replicate (k + 2 - (Nat.toDigits 10 q).length)).append hds
    have hvalue :
        Nat.ofDigitChars 10 (List.replicate (k + 2 - (Nat.toDigits 10 q).length) '0' ++ Nat.toDigits 10 q) 0 = q := by
      rw [Nat.ofDigitChars_append, Nat.ofDigitChars_replicate_zero, Nat.mul_zero, Nat.ofDigitChars_ten_toDigits]
    have hlen : k + 2 ≤ (List.replicate (k + 2 - (Nat.toDigits 10 q).length) '0' ++ Nat.toDigits 10 q).length := by
      rw [List.length_append, List.length_replicate]
      omega
    simp only [Layout.writePositional]
    generalize List.replicate (k + 2 - (Nat.toDigits 10 q).length) '0' ++ Nat.toDigits 10 q = padded at *
    have hne : padded.take (padded.length - (k + 1)) ≠ [] := by
      intro h
      have hl := congrArg List.length h
      rw [List.length_take, List.length_nil] at hl
      omega
    have hfrac : (padded.drop (padded.length - (k + 1))).length = k + 1 := by
      rw [List.length_drop]
      omega
    refine .of_digits (hpadded.take _) hne (isNumeral_of_digits (hpadded.drop _) rfl) ?_
    rw [readDecimal_point (hpadded.take _) (hpadded.drop _) hne, List.take_append_drop, hvalue, hfrac]
    rfl

theorem numeral_scientific (q : Nat) (e : Int) :
    Numeral (Layout.writeScientific (Nat.toDigits 10 q) (e + (Nat.toDigits 10 q).length - 1))
      (Decimal.magnitude ⟨q, e⟩) := by
  have hds := digits_toDigits q
  have hvalue : Nat.ofDigitChars 10 (Nat.toDigits 10 q) 0 = q := Nat.ofDigitChars_ten_toDigits
  have hpos : 0 < (Nat.toDigits 10 q).length := Nat.length_toDigits_pos
  generalize Nat.toDigits 10 q = ds at *
  have hne : ds.take 1 ≠ [] := by
    intro h
    have hl := congrArg List.length h
    rw [List.length_take, List.length_nil] at hl
    omega
  have hdrop : (ds.length ≤ 1) = (ds.drop 1 = []) := propext List.drop_eq_nil_iff.symm
  have hexp : e + ds.length - 1 - (ds.drop 1).length = e := by
    rw [List.length_drop]
    omega
  simp only [Layout.writeScientific, hdrop]
  rw [List.append_assoc]
  apply Numeral.of_digits (hds.take 1) hne
  · intro c hc
    rcases List.mem_append.1 hc with hc | hc
    · split_ifs at hc
      · cases hc
      · exact isNumeral_of_digits (hds.drop 1) rfl c hc
    · rcases List.mem_cons.1 hc with rfl | hc
      · rfl
      · exact isNumeral_of_mem_writeInt hc
  · rw [← List.append_assoc, readDecimal_exponent (hds.take 1) (hds.drop 1) hne (readExponent_writeInt _),
      List.take_append_drop, hvalue, hexp]
    rfl

/-- a decimal in the literal layout stands for its magnitude -/
theorem numeral_writeDecimal (d : Decimal) : Numeral (Layout.literal.writeDecimal d) d.magnitude := by
  obtain ⟨q, e⟩ := d
  simp only [Layout.writeDecimal]
  split_ifs
  · exact numeral_positional q e
  · exact numeral_scientific q e

/-! ## Numbers -/

theorem ofMagnitude_magnitude (x : Single) : ofMagnitude x.negative x.magnitude = x := by
  have hlt := x.bits.toNat_lt
  have hbits : (if x.negative then signWeight + x.magnitude else x.magnitude) = x.bits.toNat := by
    unfold negative magnitude
    by_cases hs : signWeight ≤ x.bits.toNat
    · rw [if_pos (decide_eq_true hs)]
      simp only [signWeight] at *
      omega
    · rw [if_neg (by simpa using hs)]
      exact Nat.mod_eq_of_lt (Nat.not_le.1 hs)
  rw [ofMagnitude, hbits, UInt32.ofNat_toNat]

/-- the magnitude of a finite number, from its decimal -/
theorem magnitude_written {x : Single} (h : x.isFinite = true) :
    (if x.isZero then (⟨0, 0⟩ : Decimal) else shortest x.magnitude).magnitude = x.magnitude := by
  have hlt : x.magnitude < infinity := of_decide_eq_true h
  by_cases hz : x.magnitude = 0
  · simp [isZero, hz, Decimal.magnitude]
  · have hzero : x.isZero = false := by simpa [isZero] using hz
    simp only [hzero]
    exact magnitude_shortest (Nat.pos_of_ne_zero hz) hlt

theorem isNaN_of_isFinite {x : Single} (h : x.isFinite = true) : x.isNaN = false := by
  have hlt : x.magnitude < infinity := of_decide_eq_true h
  exact decide_eq_false (by omega)

theorem write_of_isFinite {x : Single} (h : x.isFinite = true) (l : Layout) :
    x.write l = (if x.negative then ['-'] else []) ++
      l.writeDecimal (if x.isZero then ⟨0, 0⟩ else shortest x.magnitude) := by
  have hlt : x.magnitude < infinity := of_decide_eq_true h
  have hinf : x.isInfinite = false := by simpa [isInfinite] using hlt.ne
  simp only [write, isNaN_of_isFinite h, hinf]
  rfl

/-- what a number is read back as: itself, or the quiet pattern without a sign if it is not a number -/
def readBack (x : Single) : Single := if x.isNaN then ofMagnitude false (infinity + quietBit) else x

theorem readBack_of_number {x : Single} (h : x.isNaN = false) : x.readBack = x := by
  simp only [readBack, h]
  rfl

/-- a sign in front of a text that starts with none -/
theorem read_signed {cs : List Char} (h : ∀ c ∈ cs.head?, c ≠ '-' ∧ c ≠ '+') (negative : Bool) :
    read ((if negative then ['-'] else []) ++ cs) = (readMagnitude cs).map (ofMagnitude negative) := by
  cases negative with
  | true => rfl
  | false =>
    simp only [Bool.false_eq_true, if_false, List.nil_append]
    unfold read
    split
    · exact absurd rfl (h '-' rfl).1
    · exact absurd rfl (h '+' rfl).2
    · rfl

/-- a number is an infinity or finite, unless it is not a number -/
theorem isInfinite_or_isFinite {x : Single} (h : x.isNaN = false) : x.isInfinite = true ∨ x.isFinite = true := by
  have hle : ¬infinity < x.magnitude := of_decide_eq_false h
  rcases Nat.eq_or_lt_of_le (Nat.not_lt.1 hle) with heq | hlt
  · exact .inl (beq_iff_eq.2 heq)
  · exact .inr (decide_eq_true hlt)

theorem write_of_isInfinite {x : Single} (h : x.isInfinite = true) (l : Layout) :
    x.write l = (if x.negative then ['-'] else []) ++ "inf".toList := by
  have hmag : x.magnitude = infinity := beq_iff_eq.1 h
  have hnan : x.isNaN = false := decide_eq_false (by omega)
  simp only [write, hnan, h]
  rfl

/-- what the text of a number is: the sign, and a text without a sign that stands for the magnitude -/
theorem exists_write {x : Single} (h : x.isNaN = false) :
    ∃ cs, x.write .literal = (if x.negative then ['-'] else []) ++ cs ∧ readMagnitude cs = some x.magnitude ∧
      (∀ c ∈ cs.head?, c ≠ '-' ∧ c ≠ '+') ∧ ∀ c ∈ cs, isNumeral c = true := by
  rcases isInfinite_or_isFinite h with hinf | hfin
  · have hmag : x.magnitude = infinity := beq_iff_eq.1 hinf
    have hword : "inf".toList = ['i', 'n', 'f'] := by simp only [String.reduceToList]
    refine ⟨['i', 'n', 'f'], hword ▸ write_of_isInfinite hinf .literal, ?_, ?_, ?_⟩
    · rw [hmag]
      rfl
    · intro c hc
      cases hc
      decide
    · exact List.all_eq_true.1 (by decide)
  · have hnum := numeral_writeDecimal (if x.isZero then ⟨0, 0⟩ else shortest x.magnitude)
    rw [magnitude_written hfin] at hnum
    refine ⟨_, write_of_isFinite hfin .literal, hnum.readMagnitude_eq, ?_, hnum.chars⟩
    obtain ⟨d, rest, hcs, hd⟩ := hnum.starts
    rw [hcs]
    intro c hc
    cases hc
    exact ⟨ne_of_isDigit hd rfl, ne_of_isDigit hd rfl⟩

theorem write_of_isNaN {x : Single} (h : x.isNaN = true) (l : Layout) : x.write l = "NaN".toList := by
  simp only [write, h]
  rfl

/-- **Every number is read back.** Zeros keep their signs, and infinities are numbers here -/
theorem read_write_literal (x : Single) : read (x.write .literal) = some x.readBack := by
  cases h : x.isNaN with
  | true =>
    rw [write_of_isNaN h, readBack, h]
    simp only [String.reduceToList]
    rfl
  | false =>
    obtain ⟨cs, hcs, hread, hhead, -⟩ := exists_write h
    rw [hcs, read_signed hhead, hread, Option.map_some, ofMagnitude_magnitude, readBack_of_number h]

/-- a number is written with characters of numbers -/
theorem isNumeral_of_mem_write {x : Single} {c : Char} (h : c ∈ x.write .literal) : isNumeral c = true := by
  cases hnan : x.isNaN with
  | true =>
    have hall : ("NaN".toList.all isNumeral) = true := by
      simp only [String.reduceToList]
      decide
    rw [write_of_isNaN hnan] at h
    exact List.all_eq_true.1 hall c h
  | false =>
    obtain ⟨cs, hcs, -, -, hchars⟩ := exists_write hnan
    rw [hcs] at h
    rcases List.mem_append.1 h with h | h
    · split_ifs at h
      · rw [List.mem_singleton.1 h]
        rfl
      · cases h
    · exact hchars c h

end Single

end ArrayEngine
