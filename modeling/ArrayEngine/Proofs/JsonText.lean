/-
Values that are written as JSON are read back.

`Json.Plain` holds of the values that records are made of: every string and every key has a text, and every number is a
size. What follows a value is a separator or nothing (`Closes`), so that a reader knows where it ends.

- `readString_escape`: every text is read back from between its quotes. An escape is one piece, and stands for the
  character it was written for (`readPiece_escape`);
- `readNumber_size`: a size is read back as it was written, since it starts with a zero only if it is zero;
- `Plain.readable`: a value is read back whatever follows it, by induction on the value. `Readable.elements` and
  `Readable.members` go through an array and an object by induction on the fuel, as the readers do;
- `Plain.read_compact`: so is a document.
-/
import ArrayEngine.Json.Reader
import ArrayEngine.Json.Writer
import ArrayEngine.Proofs.Numerals

namespace ArrayEngine.Json

/-! ## Strings -/

theorem hexValue_digitChar : ∀ k < 16, hexValue (Nat.digitChar k) = some k := by decide

/-- what a piece stands for does not depend on the pieces after it -/
def Piece.Stands (p : Piece) (c : Char) : Prop := ∀ ps, piecesText (p :: ps) = (piecesText ps).map (c :: ·)

theorem Piece.Stands.char (c : Char) : (Piece.char c).Stands c := fun _ => by rw [piecesText]

/-- a unit below the surrogates is a character -/
theorem Piece.Stands.unit {u : Nat} (hu : u < 0xd800) : (Piece.unit u).Stands (Char.ofNat u) := by
  have hhigh : isHighSurrogate u = false := by
    simp only [isHighSurrogate, Bool.and_eq_false_iff, decide_eq_false_iff_not]
    omega
  have hlow : isLowSurrogate u = false := by
    simp only [isLowSurrogate, Bool.and_eq_false_iff, decide_eq_false_iff_not]
    omega
  intro ps
  rcases ps with _ | ⟨_ | l, ps⟩ <;> simp only [piecesText, hhigh, hlow] <;> rfl

/-- a control character, by its two hexadecimal digits -/
theorem readUnit_control {n : Nat} (hn : n < 0x20) (r : List Char) :
    readUnit ('0' :: '0' :: Nat.digitChar (n / 16) :: Nat.digitChar (n % 16) :: r) = some (n, r) := by
  have hzero : hexValue '0' = some 0 := rfl
  have hvalue : (0 * 16 + 0) * 256 + n / 16 * 16 + n % 16 = n := by omega
  simp only [readUnit, hzero, hexValue_digitChar (n / 16) (by omega), hexValue_digitChar (n % 16) (by omega)]
  exact congrArg (fun m => some (m, r)) hvalue

/-- **A character is one piece**, whichever way it is written -/
theorem readPiece_escape (c : Char) (r : List Char) :
    ∃ p, readPiece (escape c ++ r) = some (p, r) ∧ p.Stands c := by
  unfold escape
  split_ifs with h h h h h h h hcontrol
  -- the seven short escapes
  iterate 7
    · subst h
      exact ⟨.char _, rfl, .char _⟩
  · refine ⟨.unit c.toNat, ?_, ?_⟩
    · exact (congrArg (Option.map _) (readUnit_control hcontrol r)).trans rfl
    · simpa only [Char.ofNat_toNat] using Piece.Stands.unit (u := c.toNat) (by omega)
  · refine ⟨.char c, ?_, .char c⟩
    have hplain : ¬(c.toNat < 0x20 ∨ c = '\\') := by tauto
    rw [List.singleton_append, readPiece.eq_3 _ _ (by tauto) (by tauto), if_neg hplain]

/-- no character is written with a quote in front -/
theorem escape_append_ne_quote (c : Char) (r r' : List Char) : escape c ++ r ≠ '\"' :: r' := by
  unfold escape
  split_ifs with h <;> intro heq <;> cases heq
  exact h rfl

theorem length_escape_pos (c : Char) : 0 < (escape c).length := by
  unfold escape
  split_ifs <;> exact Nat.succ_pos _

theorem readPieces_escape (rest : List Char) {cs : List Char} {fuel : Nat}
    (hfuel : (cs.flatMap escape).length ≤ fuel) :
    ∃ ps, readPieces fuel (cs.flatMap escape ++ '\"' :: rest) = some (ps, rest) ∧ piecesText ps = some cs := by
  induction cs generalizing fuel with
  | nil => exact ⟨[], by simp [readPieces], rfl⟩
  | cons c cs ih =>
    -- a character is written with at least one, so the fuel lasts
    have hpos := length_escape_pos c
    rw [List.flatMap_cons, List.length_append] at hfuel
    cases fuel with
    | zero => omega
    | succ fuel =>
      obtain ⟨p, hp, hstands⟩ := readPiece_escape c (cs.flatMap escape ++ '\"' :: rest)
      obtain ⟨ps, hps, htext⟩ := ih (show (cs.flatMap escape).length ≤ fuel by omega)
      refine ⟨p :: ps, ?_, ?_⟩
      · rw [List.flatMap_cons, List.append_assoc, readPieces.eq_2 _ _ (escape_append_ne_quote c _), hp]
        simp [hps]
      · rw [hstands, htext, Option.map_some]

/-- **Every text is read back** from between its quotes -/
theorem readString_escape (s : String) (rest : List Char) :
    readString (s.toList.flatMap escape ++ '\"' :: rest) = some (some s, rest) := by
  have hfuel : (s.toList.flatMap escape).length ≤ (s.toList.flatMap escape ++ '\"' :: rest).length := by simp
  obtain ⟨ps, hps, htext⟩ := readPieces_escape rest hfuel
  simp only [readString, hps, Option.map_some, htext, String.ofList_toList]

/-! ## Numbers -/

/-- what may follow a value: a separator, or nothing -/
def Closes (rest : List Char) : Prop := ∀ c ∈ rest.head?, c = ',' ∨ c = ']' ∨ c = '\x7d'

theorem digitChar_eq_zero : ∀ k < 10, Nat.digitChar k = '0' → k = 0 := by decide

/-- a size starts with a digit, and with a zero only if it is zero -/
theorem exists_size_eq_cons (n : Nat) :
    ∃ c cs, Size.write n = c :: cs ∧ c.isDigit = true ∧ (c = '0' → n = 0) := by
  induction n using Nat.strongRecOn with
  | ind n ih =>
    by_cases hlt : n < 10
    · have hsize : Size.write n = [Nat.digitChar n] := Nat.toDigits_of_lt_base hlt
      have hdigit : (Nat.digitChar n).isDigit = true :=
        digits_toDigits n _ (Nat.toDigits_of_lt_base hlt ▸ List.mem_singleton_self _)
      exact ⟨_, [], hsize, hdigit, digitChar_eq_zero n hlt⟩
    · have hsize : Size.write n = Size.write (n / 10) ++ [Nat.digitChar (n % 10)] :=
        Nat.toDigits_of_base_le (by decide) (Nat.not_lt.1 hlt)
      obtain ⟨c, cs, hcs, hdigit, hzero⟩ := ih (n / 10) (by omega)
      refine ⟨c, cs ++ [Nat.digitChar (n % 10)], by rw [hsize, hcs, List.cons_append], hdigit, fun hc => ?_⟩
      have hn := hzero hc
      omega

theorem readDigits_size (n : Nat) {rest : List Char} (hrest : ∀ c ∈ rest.head?, c.isDigit = false) :
    readDigits (Size.write n ++ rest) = some (Size.write n, rest) := by
  obtain ⟨htake, hdrop⟩ := takeWhile_digits (digits_toDigits n) rest hrest
  unfold Size.write
  simp only [readDigits, htake, hdrop, if_neg Nat.toDigits_ne_nil]

theorem readWhole_size (n : Nat) {rest : List Char} (hrest : ∀ c ∈ rest.head?, c.isDigit = false) :
    readWhole (Size.write n ++ rest) = some (Size.write n, rest) := by
  obtain ⟨c, cs, hcs, -, hzero⟩ := exists_size_eq_cons n
  by_cases hc : c = '0'
  · rw [hzero hc]
    rfl
  · have hdigits := readDigits_size n hrest
    rw [hcs, List.cons_append] at hdigits ⊢
    rw [readWhole.eq_2 _ (by rintro r heq; exact hc (List.cons.inj heq).1), hdigits]

theorem readFraction_of_closes {rest : List Char} (h : Closes rest) : readFraction rest = some ([], rest) := by
  unfold readFraction
  split
  · exact absurd (h '.' rfl) (by decide)
  · rfl

theorem readExponent_of_closes {rest : List Char} (h : Closes rest) : readExponent rest = some ([], rest) := by
  cases rest with
  | nil => rfl
  | cons c rest =>
    have hc : ¬(c = 'e' ∨ c = 'E') := by
      rintro (rfl | rfl) <;> exact absurd (h _ rfl) (by decide)
    simp only [readExponent, if_neg hc]

/-- **Every size is read back**, as it was written -/
theorem readNumber_size (n : Nat) {rest : List Char} (h : Closes rest) :
    readNumber (Size.write n ++ rest) = some (Size.write n, rest) := by
  have hrest : ∀ c ∈ rest.head?, c.isDigit = false := by
    intro c hc
    rcases h c hc with rfl | rfl | rfl <;> rfl
  obtain ⟨c, cs, hcs, hdigit, -⟩ := exists_size_eq_cons n
  have hwhole := readWhole_size n hrest
  have hminus : c ≠ '-' := ne_of_isDigit hdigit rfl
  rw [hcs, List.cons_append] at hwhole ⊢
  unfold readNumber
  split
  next heq =>
    split at heq
    · next hhead => exact absurd (List.cons.inj hhead).1 hminus
    · cases heq
      simp [hwhole, readFraction_of_closes h, readExponent_of_closes h]

/-! ## Values -/

/-- a value as records have it: its strings and its keys have texts, and its numbers are sizes -/
inductive Plain : Json → Prop where
  | null : Plain .null
  | bool (b : Bool) : Plain (.bool b)
  | size (n : Nat) : Plain (.ofSize n)
  | text (s : String) : Plain (.ofText s)
  | array {vs : List Json} (h : ∀ v ∈ vs, Plain v) : Plain (.array vs)
  | object {ms : List (Option String × Json)} (hkeys : ∀ m ∈ ms, m.1.isSome) (h : ∀ m ∈ ms, Plain m.2) :
    Plain (.object ms)

/-- a value that is read back whatever follows it. Its first character is neither space nor the end of an array -/
structure Readable (v : Json) : Prop where
  starts : ∃ c cs, v.write = c :: cs ∧ isSpace c = false ∧ c ≠ ']'
  reads : ∀ {fuel : Nat} {rest : List Char}, v.write.length ≤ fuel → Closes rest →
    readValue fuel (v.write ++ rest) = some (v, rest)

theorem skipSpace_cons {c : Char} (h : isSpace c = false) (cs : List Char) : skipSpace (c :: cs) = c :: cs :=
  List.dropWhile_cons_of_neg (by simp [h])

theorem Readable.skipSpace_write {v : Json} (h : v.Readable) (r : List Char) :
    skipSpace (v.write ++ r) = v.write ++ r := by
  obtain ⟨c, cs, hcs, hspace, -⟩ := h.starts
  rw [hcs, List.cons_append, skipSpace_cons hspace]

theorem closes_writeElements (vs : List Json) (rest : List Char) : Closes (writeElements vs ++ rest) := by
  cases vs <;> (intro c hc; cases hc; decide)

theorem closes_writeMembers (ms : List (Option String × Json)) (rest : List Char) :
    Closes (writeMembers ms ++ rest) := by
  cases ms <;> (intro c hc; cases hc; decide)

theorem length_writeElements_pos (vs : List Json) : 0 < (writeElements vs).length := by
  cases vs <;> exact Nat.succ_pos _

/-- the elements of an array, one after another -/
theorem Readable.elements {v : Json} {vs : List Json} (h : ∀ w ∈ v :: vs, w.Readable) {fuel : Nat}
    (hfuel : v.write.length + (writeElements vs).length ≤ fuel) (rest : List Char) :
    readElements fuel (v.write ++ (writeElements vs ++ rest)) = some (v :: vs, rest) := by
  -- what follows the element takes fuel as well, so one unit less is still enough for the element
  have hpos := length_writeElements_pos vs
  induction fuel generalizing v vs with
  | zero => omega
  | succ fuel ih =>
    obtain ⟨hv, hvs⟩ := List.forall_mem_cons.1 h
    rw [readElements, hv.reads (by omega) (closes_writeElements vs rest)]
    cases vs with
    | nil => rfl
    | cons w ws =>
      have hw := (List.forall_mem_cons.1 hvs).1
      simp only [writeElements, List.length_append, List.length_cons] at hfuel
      have hrest := ih hvs (by omega) (length_writeElements_pos ws)
      simp [writeElements, skipSpace_cons (c := ',') rfl, hw.skipSpace_write, hrest]

theorem length_writeMembers_pos (ms : List (Option String × Json)) : 0 < (writeMembers ms).length := by
  cases ms <;> exact Nat.succ_pos _

theorem writeString_append (k : String) (r : List Char) :
    writeString (some k) ++ r = '\"' :: (k.toList.flatMap escape ++ '\"' :: r) := by
  unfold writeString
  rw [List.append_assoc, List.cons_append, List.singleton_append]

theorem Readable.afterColon_write {v : Json} (h : v.Readable) (r : List Char) :
    afterColon (':' :: (v.write ++ r)) = some (v.write ++ r) := by
  simp [afterColon, skipSpace_cons (c := ':') rfl, h.skipSpace_write]

/-- the members of an object, one after another -/
theorem Readable.members {k : Option String} {v : Json} {ms : List (Option String × Json)}
    (h : ∀ m ∈ (k, v) :: ms, m.1.isSome ∧ m.2.Readable) {fuel : Nat}
    (hfuel : v.write.length + (writeMembers ms).length ≤ fuel) (rest : List Char) :
    readMembers fuel (writeString k ++ ':' :: (v.write ++ (writeMembers ms ++ rest))) =
      some ((k, v) :: ms, rest) := by
  have hpos := length_writeMembers_pos ms
  induction fuel generalizing k v ms with
  | zero => omega
  | succ fuel ih =>
    obtain ⟨hkv, hms⟩ := List.forall_mem_cons.1 h
    have hv : v.Readable := hkv.2
    obtain ⟨k, rfl⟩ := Option.isSome_iff_exists.1 hkv.1
    have hread := hv.reads (show v.write.length ≤ fuel by omega) (closes_writeMembers ms rest)
    rw [writeString_append, readMembers, readString_escape]
    simp only [Option.bind_eq_bind, Option.bind_some, hv.afterColon_write, hread]
    cases ms with
    | nil => rfl
    | cons m ms =>
      obtain ⟨l, w⟩ := m
      obtain ⟨l, rfl⟩ := Option.isSome_iff_exists.1 (List.forall_mem_cons.1 hms).1.1
      simp only [writeMembers, List.length_append, List.length_cons] at hfuel
      have hrest := ih hms (by omega) (length_writeMembers_pos ms)
      rw [writeString_append] at hrest
      simp [writeMembers, skipSpace_cons (c := ',') rfl, writeString_append, skipSpace_cons (c := '\"') rfl, hrest]

/-- a value by the first character it is written with -/
theorem Readable.of_head {v : Json} {c : Char} {cs : List Char} (hcs : v.write = c :: cs)
    (hspace : isSpace c = false) (hne : c ≠ ']')
    (hreads : ∀ {fuel : Nat} {rest : List Char}, cs.length ≤ fuel → Closes rest →
      readValue (fuel + 1) (c :: (cs ++ rest)) = some (v, rest)) : v.Readable where
  starts := ⟨c, cs, hcs, hspace, hne⟩
  reads {fuel rest} hfuel hrest := by
    rw [hcs, List.length_cons] at hfuel
    obtain ⟨fuel, rfl⟩ := Nat.exists_eq_add_one_of_ne_zero (n := fuel) (by omega)
    rw [hcs, List.cons_append]
    exact hreads (Nat.le_of_succ_le_succ hfuel) hrest

theorem readable_size (n : Nat) : (ofSize n).Readable := by
  obtain ⟨c, cs, hcs, hdigit, -⟩ := exists_size_eq_cons n
  have hne {d : Char} (hd : d.isDigit = false) : c ≠ d := ne_of_isDigit hdigit hd
  have hspace : isSpace c = false := by
    simp only [isSpace, Bool.or_eq_false_iff, beq_eq_false_iff_ne]
    exact ⟨⟨⟨hne rfl, hne rfl⟩, hne rfl⟩, hne rfl⟩
  refine .of_head hcs hspace (hne rfl) fun {fuel rest} _ hrest => ?_
  have hnumber := readNumber_size n hrest
  rw [hcs, List.cons_append] at hnumber
  have hcons {d : Char} (hd : d.isDigit = false) {r r' : List Char} : c :: r = d :: r' → False :=
    fun h => hne hd (List.cons.inj h).1
  rw [readValue.eq_8 _ _ (fun _ => hcons rfl) (fun _ => hcons rfl) (fun _ => hcons rfl) (fun _ => hcons rfl)
    (fun _ => hcons rfl) (fun _ => hcons rfl), hnumber, ofSize, hcs]
  rfl

theorem readable_text (s : String) : (ofText s).Readable := by
  have hwrite : (ofText s).write = '\"' :: (s.toList.flatMap escape ++ ['\"']) := by
    have h := writeString_append s []
    rwa [List.append_nil] at h
  refine .of_head hwrite rfl (by decide) fun {fuel rest} _ _ => ?_
  rw [readValue, List.append_assoc, List.singleton_append, readString_escape]
  rfl

theorem readable_null : Json.null.Readable := by
  have hwrite : Json.null.write = ['n', 'u', 'l', 'l'] := by simp only [write, String.reduceToList]
  exact .of_head hwrite rfl (by decide) fun _ _ => by simp [readValue]

theorem readable_bool (b : Bool) : (Json.bool b).Readable := by
  cases b with
  | false =>
    have hwrite : (Json.bool false).write = ['f', 'a', 'l', 's', 'e'] := by simp only [write, String.reduceToList]
    exact .of_head hwrite rfl (by decide) fun _ _ => by simp [readValue]
  | true =>
    have hwrite : (Json.bool true).write = ['t', 'r', 'u', 'e'] := by simp only [write, String.reduceToList]
    exact .of_head hwrite rfl (by decide) fun _ _ => by simp [readValue]

theorem readable_array {vs : List Json} (h : ∀ v ∈ vs, v.Readable) : (Json.array vs).Readable := by
  cases vs with
  | nil =>
    have hwrite : (Json.array []).write = ['[', ']'] := by simp only [write, String.reduceToList]
    exact .of_head hwrite rfl (by decide) fun _ _ => by simp [readValue, skipSpace_cons (c := ']') rfl]
  | cons v vs =>
    have hv := h v List.mem_cons_self
    obtain ⟨c, cs, hcs, -, hne⟩ := hv.starts
    have hwrite : (Json.array (v :: vs)).write = '[' :: (v.write ++ writeElements vs) := by simp [write]
    refine .of_head hwrite rfl (by decide) fun {fuel rest} hfuel _ => ?_
    have hread := Readable.elements h (List.length_append ▸ hfuel) rest
    rw [readValue, List.append_assoc, hv.skipSpace_write]
    -- the first element is there, so the array does not end here
    rw [hcs, List.cons_append] at hread ⊢
    simp [hne, hread]

theorem readable_object {ms : List (Option String × Json)} (h : ∀ m ∈ ms, m.1.isSome ∧ m.2.Readable) :
    (Json.object ms).Readable := by
  cases ms with
  | nil =>
    have hwrite : (Json.object []).write = ['\x7b', '\x7d'] := by simp only [write, String.reduceToList]
    exact .of_head hwrite rfl (by decide) fun _ _ => by simp [readValue, skipSpace_cons (c := '\x7d') rfl]
  | cons m ms =>
    obtain ⟨k, v⟩ := m
    obtain ⟨k, rfl⟩ := Option.isSome_iff_exists.1 (h _ List.mem_cons_self).1
    have hwrite : (Json.object ((some k, v) :: ms)).write =
        '\x7b' :: (writeString (some k) ++ ':' :: (v.write ++ writeMembers ms)) := by simp [write]
    refine .of_head hwrite rfl (by decide) fun {fuel rest} hfuel _ => ?_
    have hlength : v.write.length + (writeMembers ms).length ≤ fuel := by
      simp only [List.length_append, List.length_cons] at hfuel
      omega
    have hread := Readable.members h hlength rest
    rw [writeString_append] at hread
    simp [readValue, writeString_append, skipSpace_cons (c := '\"') rfl, hread]

/-- **What is plain is read back**, whatever follows it -/
theorem Plain.readable {v : Json} (h : v.Plain) : v.Readable := by
  induction h with
  | null => exact readable_null
  | bool b => exact readable_bool b
  | size n => exact readable_size n
  | text s => exact readable_text s
  | array _ ih => exact readable_array ih
  | object hkeys _ ih => exact readable_object fun m hm => ⟨hkeys m hm, ih m hm⟩

/-- **A document is read back** if what it stands for is plain -/
theorem Plain.read_compact {v : Json} (h : v.Plain) : Json.read v.compact = some v := by
  have hv := h.readable
  have hskip := hv.skipSpace_write []
  have hcloses : Closes [] := fun c hc => by cases hc
  have hread := hv.reads (Nat.le_succ v.write.length) hcloses
  rw [List.append_nil] at hskip hread
  have hend : skipSpace [] = [] := rfl
  simp [Json.read, compact, hskip, hread, hend]

end ArrayEngine.Json
