/-
What a literal is, and the number it stands for.

`DecimalText` is the grammar of the texts that stand for a decimal, with that decimal: digits with an optional point,
at least one digit on one side of it, and an optional exponent part. `Single.Literal` is such a text, perhaps after a
sign, with a finite number that the value of the decimal rounds to.
- `readDecimal_eq_some`: `readDecimal` reads that grammar;
- `read_eq_some`: `read` answers what a text stands for as a `NumberText`, which may also be a word for infinity or for
  what is no number, or a decimal that is too large;
- `readFinite_eq_some`: `readFinite` answers a number exactly if the text is a literal for it. What is only a
  `NumberText` is no literal.
-/
import ArrayEngine.Proofs.Nearest
import ArrayEngine.Proofs.Numerals

namespace ArrayEngine

namespace Single

/-! ## The grammar -/

/-- an optional sign, and whether it is a minus -/
inductive SignText : List Char → Bool → Prop
  | none : SignText [] false
  | plus : SignText ['+'] false
  | minus : SignText ['-'] true

/-- an optional sign and at least one digit -/
inductive IntegerText : List Char → Int → Prop
  | mk {sign ds : List Char} {negative : Bool} (hsign : SignText sign negative) (hds : Digits ds) (hne : ds ≠ []) :
    IntegerText (sign ++ ds) (if negative then -(Nat.ofDigitChars 10 ds 0 : Int) else Nat.ofDigitChars 10 ds 0)

/-- an optional exponent part -/
inductive ExponentText : List Char → Int → Prop
  | absent : ExponentText [] 0
  | present {c : Char} {cs : List Char} {e : Int} (hc : c = 'e' ∨ c = 'E') (h : IntegerText cs e) :
    ExponentText (c :: cs) e

/-- digits with an optional point and an optional exponent part. The digits behind the point count down the exponent -/
inductive DecimalText : List Char → Decimal → Prop
  | mk {whole point fraction exponent : List Char} {e : Int} (hwhole : Digits whole) (hfraction : Digits fraction)
      (hpoint : point = ['.'] ∨ point = [] ∧ fraction = []) (hne : whole ≠ [] ∨ fraction ≠ [])
      (hexponent : ExponentText exponent e) :
    DecimalText (whole ++ point ++ fraction ++ exponent)
      ⟨Nat.ofDigitChars 10 (whole ++ fraction) 0, e - fraction.length⟩

/-- a text that stands for a finite number: the sign of the text, and the magnitude nearest to the value of its decimal -/
inductive Literal : List Char → Single → Prop
  | mk {sign body : List Char} {d : Decimal} {x : Single} (hsign : SignText sign x.negative) (hbody : DecimalText body d)
      (hnear : IsNearest d.units x.magnitude) (hfinite : x.isFinite = true) : Literal (sign ++ body) x

/-- the words for infinity and for what is no number, in any case, with their magnitudes -/
inductive SpecialText : List Char → Nat → Prop
  | infinite {cs : List Char} (h : cs.map Char.toLower = "inf".toList ∨ cs.map Char.toLower = "infinity".toList) :
    SpecialText cs infinity
  | notANumber {cs : List Char} (h : cs.map Char.toLower = "nan".toList) : SpecialText cs (infinity + quietBit)

/-- a text that stands for a number of any kind: a decimal, for the magnitude nearest to it, or a word -/
inductive NumberText : List Char → Single → Prop
  | decimal {sign body : List Char} {negative : Bool} {d : Decimal} {m : Nat} (hsign : SignText sign negative)
      (hbody : DecimalText body d) (hnear : IsNearest d.units m) : NumberText (sign ++ body) (ofMagnitude negative m)
  | special {sign word : List Char} {negative : Bool} {m : Nat} (hsign : SignText sign negative)
      (hword : SpecialText word m) : NumberText (sign ++ word) (ofMagnitude negative m)

/-! ## Exponents and decimals -/

theorem digits_takeWhile (cs : List Char) : Digits (cs.takeWhile Char.isDigit) := List.all_eq_true.1 List.all_takeWhile

theorem readExponent_eq_some {cs : List Char} {e : Int} : readExponent cs = some e ↔ IntegerText cs e := by
  constructor
  · intro h
    unfold readExponent at h
    split at h <;>
      simp only [Option.map_eq_some_iff, Option.bind_eq_bind, Option.bind_eq_some_iff, Option.pure_def,
        Option.ite_none_right_eq_some, Option.some.injEq, List.all_eq_true] at h
    · obtain ⟨_, ⟨⟨hne, hds⟩, rfl⟩, rfl⟩ := h
      exact .mk .plus hds hne
    · obtain ⟨_, ⟨_, ⟨⟨hne, hds⟩, rfl⟩, rfl⟩, rfl⟩ := h
      exact .mk .minus hds hne
    · obtain ⟨_, ⟨⟨hne, hds⟩, rfl⟩, rfl⟩ := h
      exact .mk .none hds hne
  · intro h
    obtain ⟨hsign, hds, hne⟩ := h
    have hall := List.all_eq_true.2 hds
    cases hsign with
    | none => exact readExponent_digits hds hne
    | plus => simp [readExponent, hne, hall]
    | minus => simp [readExponent, hne, hall]

theorem exponentText_nil {e : Int} : ExponentText [] e ↔ 0 = e := by
  constructor
  · intro h
    cases h
    rfl
  · intro h
    subst h
    exact .absent

theorem exponentText_cons {c : Char} {cs : List Char} {e : Int} :
    ExponentText (c :: cs) e ↔ (c = 'e' ∨ c = 'E') ∧ readExponent cs = some e := by
  rw [readExponent_eq_some]
  constructor
  · intro h
    obtain ⟨_, _⟩ | ⟨hc, he⟩ := h
    exact ⟨hc, he⟩
  · exact fun h => .present h.1 h.2

/-- an exponent part starts with no digit and no point -/
theorem ExponentText.head {cs : List Char} {e : Int} (h : ExponentText cs e) {c : Char} (hc : c ∈ cs.head?) :
    c.isDigit = false ∧ c ≠ '.' := by
  cases h with
  | absent => cases hc
  | present he =>
    obtain rfl := Option.some.inj hc
    rcases he with rfl | rfl <;> decide

/-- a text cut where `readDecimal` cuts it -/
structure Parts (cs whole point fraction rest : List Char) : Prop where
  append : whole ++ point ++ fraction ++ rest = cs
  digits_whole : Digits whole
  digits_fraction : Digits fraction
  point_or : point = ['.'] ∨ point = [] ∧ fraction = []
  head_rest : ∀ c ∈ rest.head?, c.isDigit = false ∧ (point = [] → c ≠ '.')

theorem head_dropWhile (cs : List Char) : ∀ c ∈ (cs.dropWhile Char.isDigit).head?, c.isDigit = false := by
  intro c hc
  have h := List.head?_dropWhile_not Char.isDigit cs
  rw [Option.mem_def.1 hc] at h
  exact h

theorem exists_parts (cs : List Char) : ∃ whole point fraction rest, Parts cs whole point fraction rest := by
  have hcut : cs.takeWhile Char.isDigit ++ cs.dropWhile Char.isDigit = cs := List.takeWhile_append_dropWhile
  have hwhole := digits_takeWhile cs
  have hhead := head_dropWhile cs
  generalize cs.takeWhile Char.isDigit = whole at *
  generalize cs.dropWhile Char.isDigit = rest at *
  by_cases hpoint : ∃ r, rest = '.' :: r
  · obtain ⟨r, rfl⟩ := hpoint
    refine ⟨whole, ['.'], r.takeWhile Char.isDigit, r.dropWhile Char.isDigit, ?_, hwhole, digits_takeWhile r, .inl rfl,
      fun c hc => ⟨head_dropWhile r c hc, nofun⟩⟩
    rw [List.append_assoc, List.takeWhile_append_dropWhile, List.append_assoc, ← hcut]
    rfl
  · refine ⟨whole, [], [], rest, ?_, hwhole, nofun, .inr ⟨rfl, rfl⟩, fun c hc => ⟨hhead c hc, fun _ hdot => ?_⟩⟩
    · rw [List.append_nil, List.append_nil, hcut]
    · subst hdot
      exact hpoint ((List.head?_eq_some_iff.1 hc).imp fun _ h => h)

theorem Parts.readDecimal_eq_some {cs whole point fraction rest : List Char} (h : Parts cs whole point fraction rest)
    {d : Decimal} :
    readDecimal cs = some d ↔ (whole ≠ [] ∨ fraction ≠ []) ∧ ∃ e, ExponentText rest e ∧
      (⟨Nat.ofDigitChars 10 (whole ++ fraction) 0, e - fraction.length⟩ : Decimal) = d := by
  obtain ⟨rfl, hwhole, hfraction, hpoint, hrest⟩ := h
  have hdigits : (whole ≠ [] ∨ fraction ≠ []) ↔ ¬(whole.isEmpty && fraction.isEmpty) = true := by
    simp [Decidable.or_iff_not_imp_left]
  rw [hdigits]
  rcases hpoint with rfl | ⟨rfl, rfl⟩
  · obtain ⟨htake, hdrop⟩ := takeWhile_digits hwhole ('.' :: (fraction ++ rest)) (by simp)
    obtain ⟨hftake, hfdrop⟩ := takeWhile_digits hfraction rest fun c hc => (hrest c hc).1
    rw [List.append_assoc, List.append_assoc, List.singleton_append]
    simp only [readDecimal, htake, hdrop, hftake, hfdrop]
    cases rest with
    | nil => simp [exponentText_nil]
    | cons c r => simp [exponentText_cons, and_assoc]
  · obtain ⟨htake, hdrop⟩ := takeWhile_digits hwhole rest fun c hc => (hrest c hc).1
    rw [List.append_nil, List.append_nil]
    simp only [readDecimal, htake, hdrop]
    split
    · next r => exact absurd rfl ((hrest '.' rfl).2 rfl)
    · cases rest with
      | nil => simp [exponentText_nil]
      | cons c r => simp [exponentText_cons, and_assoc]

/-- `readDecimal` reads the grammar -/
theorem readDecimal_eq_some {cs : List Char} {d : Decimal} : readDecimal cs = some d ↔ DecimalText cs d := by
  constructor
  · intro h
    obtain ⟨whole, point, fraction, rest, hparts⟩ := exists_parts cs
    obtain ⟨hne, e, he, rfl⟩ := hparts.readDecimal_eq_some.1 h
    obtain ⟨rfl, hwhole, hfraction, hpoint, -⟩ := hparts
    exact .mk hwhole hfraction hpoint hne he
  · intro h
    obtain ⟨hwhole, hfraction, hpoint, hne, he⟩ := h
    have hparts : Parts _ _ _ _ _ :=
      ⟨rfl, hwhole, hfraction, hpoint, fun c hc => ⟨(he.head hc).1, fun _ => (he.head hc).2⟩⟩
    exact hparts.readDecimal_eq_some.2 ⟨hne, _, he, rfl⟩

/-! ## Signs and words -/

/-- a decimal starts with a digit or a point -/
theorem DecimalText.head {cs : List Char} {d : Decimal} (h : DecimalText cs d) :
    ∃ c rest, cs = c :: rest ∧ (c.isDigit = true ∨ c = '.') := by
  obtain ⟨hwhole, hfraction, hpoint, hne, -⟩ := h
  rename_i whole point fraction exponent e
  cases whole with
  | cons c whole => exact ⟨c, _, rfl, .inl (hwhole c List.mem_cons_self)⟩
  | nil =>
    rcases hpoint with rfl | ⟨rfl, rfl⟩
    · exact ⟨'.', _, rfl, .inr rfl⟩
    · simp at hne

/-- a decimal is none of the words for special values -/
theorem DecimalText.ne_word {cs : List Char} {d : Decimal} (h : DecimalText cs d) {w : List Char}
    (hw : w ∈ ["inf".toList, "infinity".toList, "nan".toList]) : cs.map Char.toLower ≠ w := by
  obtain ⟨c, rest, rfl, hc⟩ := h.head
  have hlower : c.toLower = c := by
    rcases hc with hc | rfl
    · exact toLower_of_isDigit hc
    · rfl
  intro heq
  rw [List.map_cons, hlower] at heq
  fin_cases hw <;> (obtain ⟨rfl, -⟩ := List.cons.inj heq; rcases hc with hc | hc <;> cases hc)

theorem readMagnitude_of_decimalText {cs : List Char} {d : Decimal} (h : DecimalText cs d) :
    readMagnitude cs = some d.magnitude := by
  simp only [readMagnitude]
  rw [if_neg, if_neg (h.ne_word (by simp)), readDecimal_eq_some.2 h, Option.map_some]
  exact not_or.2 ⟨h.ne_word (by simp), h.ne_word (by simp)⟩

theorem exists_sign_of_read {cs : List Char} {x : Single} (h : read cs = some x) :
    ∃ sign body negative m, sign ++ body = cs ∧ SignText sign negative ∧ readMagnitude body = some m ∧
      ofMagnitude negative m = x := by
  unfold read at h
  split at h <;> obtain ⟨m, hm, hx⟩ := Option.map_eq_some_iff.1 h
  · exact ⟨_, _, _, m, rfl, .minus, hm, hx⟩
  · exact ⟨_, _, _, m, rfl, .plus, hm, hx⟩
  · exact ⟨_, _, _, m, rfl, .none, hm, hx⟩

theorem read_sign {sign body : List Char} {negative : Bool} (h : SignText sign negative)
    (hbody : ∀ c ∈ body.head?, c ≠ '-' ∧ c ≠ '+') :
    read (sign ++ body) = (readMagnitude body).map (ofMagnitude negative) := by
  cases h with
  | none => exact read_signed hbody false
  | plus => rfl
  | minus => rfl

theorem toNat_ofMagnitude {m : Nat} (h : m < signWeight) (negative : Bool) :
    (ofMagnitude negative m).bits.toNat = if negative then signWeight + m else m := by
  refine UInt32.toNat_ofNat_of_lt' ?_
  have hsize : UInt32.size = 2 * signWeight := rfl
  split <;> omega

theorem magnitude_ofMagnitude {m : Nat} (h : m < signWeight) (negative : Bool) :
    (ofMagnitude negative m).magnitude = m := by
  rw [magnitude, toNat_ofMagnitude h]
  split
  · rw [Nat.add_mod_left, Nat.mod_eq_of_lt h]
  · exact Nat.mod_eq_of_lt h

theorem negative_ofMagnitude {m : Nat} (h : m < signWeight) (negative : Bool) :
    (ofMagnitude negative m).negative = negative := by
  rw [Single.negative, toNat_ofMagnitude h]
  cases negative with
  | true => exact decide_eq_true (Nat.le_add_right _ _)
  | false => exact decide_eq_false (Nat.not_le.2 h)

theorem readMagnitude_lt {cs : List Char} {m : Nat} (h : readMagnitude cs = some m) : m < signWeight := by
  simp only [readMagnitude] at h
  split_ifs at h
  · obtain rfl := Option.some.inj h
    decide
  · obtain rfl := Option.some.inj h
    decide
  · obtain ⟨d, -, rfl⟩ := Option.map_eq_some_iff.1 h
    exact d.isNearest_magnitude.le_infinity.trans_lt (by decide)

/-- the words for infinity are none for what is no number -/
theorem SpecialText.readMagnitude_eq {cs : List Char} {m : Nat} (h : SpecialText cs m) : readMagnitude cs = some m := by
  simp only [readMagnitude]
  cases h with
  | infinite h => rw [if_pos h]
  | notANumber h =>
    rw [h, if_neg, if_pos rfl]
    simp only [String.reduceToList]
    decide

theorem readMagnitude_eq_some {cs : List Char} {m : Nat} :
    readMagnitude cs = some m ↔ SpecialText cs m ∨ ∃ d, DecimalText cs d ∧ IsNearest d.units m := by
  constructor
  · intro h
    simp only [readMagnitude] at h
    split_ifs at h with hinf hnan
    · obtain rfl := Option.some.inj h
      exact .inl (.infinite hinf)
    · obtain rfl := Option.some.inj h
      exact .inl (.notANumber hnan)
    · obtain ⟨d, hd, rfl⟩ := Option.map_eq_some_iff.1 h
      exact .inr ⟨d, readDecimal_eq_some.1 hd, d.isNearest_magnitude⟩
  · intro h
    rcases h with hword | ⟨d, hd, hnear⟩
    · exact hword.readMagnitude_eq
    · rw [readMagnitude_of_decimalText hd, (Decimal.isNearest_magnitude d).unique hnear]

/-- a text that stands for a magnitude starts with no sign -/
theorem head_of_readMagnitude {cs : List Char} {m : Nat} (h : readMagnitude cs = some m) :
    ∀ c ∈ cs.head?, c ≠ '-' ∧ c ≠ '+' := by
  rcases readMagnitude_eq_some.1 h with hword | ⟨d, hd, -⟩
  · have hfirst : ∃ l ∈ ['i', 'n'], (cs.map Char.toLower).head? = some l := by
      rcases hword with (hw | hw) | hw <;> rw [hw] <;> simp
    obtain ⟨l, hl, hfirst⟩ := hfirst
    intro c hc
    have hlower : c.toLower = l := by simpa [Option.mem_def.1 hc] using hfirst
    constructor <;> (rintro rfl; rw [← hlower] at hl; exact absurd hl (by decide))
  · obtain ⟨c, rest, rfl, hc⟩ := hd.head
    intro c' hc'
    obtain rfl := Option.some.inj hc'
    rcases hc with hc | rfl
    · exact ⟨ne_of_isDigit hc rfl, ne_of_isDigit hc rfl⟩
    · decide

/-- **What stands for a number.** A text is read as what it stands for, infinities and what is no number included. -/
theorem read_eq_some {cs : List Char} {x : Single} : read cs = some x ↔ NumberText cs x := by
  constructor
  · intro h
    obtain ⟨sign, body, negative, m, rfl, hsign, hm, rfl⟩ := exists_sign_of_read h
    rcases readMagnitude_eq_some.1 hm with hword | ⟨d, hd, hnear⟩
    · exact .special hsign hword
    · exact .decimal hsign hd hnear
  · have hread {sign body : List Char} {negative : Bool} {m : Nat} (hsign : SignText sign negative)
        (hm : readMagnitude body = some m) : read (sign ++ body) = some (ofMagnitude negative m) := by
      rw [read_sign hsign (head_of_readMagnitude hm), hm, Option.map_some]
    intro h
    cases h with
    | decimal hsign hbody hnear => exact hread hsign (readMagnitude_eq_some.2 (.inr ⟨_, hbody, hnear⟩))
    | special hsign hword => exact hread hsign hword.readMagnitude_eq

theorem SpecialText.infinity_le {cs : List Char} {m : Nat} (h : SpecialText cs m) : infinity ≤ m := by
  cases h with
  | infinite => exact le_rfl
  | notANumber => exact Nat.le_add_right _ _

/-- **What is a literal.** A text is read as a finite number exactly if it is a literal for it. -/
theorem readFinite_eq_some {cs : List Char} {x : Single} : readFinite cs = some x ↔ Literal cs x := by
  rw [readFinite, Option.filter_eq_some_iff]
  constructor
  · intro h
    obtain ⟨hread, hfinite⟩ := h
    obtain ⟨sign, body, negative, m, rfl, hsign, hm, rfl⟩ := exists_sign_of_read hread
    have hlt := readMagnitude_lt hm
    have hmag := magnitude_ofMagnitude hlt negative
    have hsmall : m < infinity := hmag ▸ of_decide_eq_true hfinite
    rcases readMagnitude_eq_some.1 hm with hword | ⟨d, hd, hnear⟩
    · exact absurd hsmall (Nat.not_lt.2 hword.infinity_le)
    · exact .mk ((negative_ofMagnitude hlt negative).symm ▸ hsign) hd (hmag.symm ▸ hnear) hfinite
  · intro h
    obtain ⟨hsign, hbody, hnear, hfinite⟩ := h
    have hread := read_eq_some.2 (.decimal hsign hbody hnear)
    rw [ofMagnitude_magnitude] at hread
    exact ⟨hread, hfinite⟩

/-- a text that is read as no finite number is no literal -/
theorem readFinite_eq_none {cs : List Char} : readFinite cs = none ↔ ∀ x, ¬Literal cs x := by
  simp only [← readFinite_eq_some, Option.eq_none_iff_forall_ne_some, ne_eq]

/-- an odd number of more than 24 binary digits lies between two numbers and goes to the even one -/
example : Literal "16777217".toList ⟨0x4b800000⟩ := readFinite_eq_some.1 (by decide +kernel)

end Single

end ArrayEngine
