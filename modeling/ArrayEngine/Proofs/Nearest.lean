/-
That rounding gives the nearest number.

`IsNearest v m` says that a value `v`, counted in units, rounds to the magnitude `m`: no magnitude is nearer, and of two
that are equally near `m` is the even one. Infinity takes part with the value that follows the largest finite one, so
this is also the rule for what is too large.
- `strictMono_unitsOf`: magnitudes are in the order of their values, so only the two neighbours of a value can be
  nearest (`isNearest_lower`, `isNearest_upper`);
- `IsNearest.unique`: a value rounds to one magnitude only;
- `roundsTo_halfEven` rounds a quotient to a whole number of steps, `isNearest_steps` these to a magnitude, and so
  `isNearest_nearest`: `nearest` rounds a quotient;
- `Decimal.isNearest_magnitude`: and `magnitude` rounds a decimal, also where it does not compute the powers of ten.
-/
import ArrayEngine.Proofs.Rounding

namespace ArrayEngine

namespace Single

/-! ## The values of magnitudes -/

/-- magnitude `k * binade + q` counts `q` steps of `2 ^ k` units, as long as its binade lasts -/
theorem unitsOf_steps {k q : Nat} (hq : q ≤ 2 * binade) (hk : k = 0 ∨ binade ≤ q) :
    unitsOf (k * binade + q) = q * 2 ^ k := by
  have hpos : 0 < binade := by decide
  rcases Nat.lt_or_ge q binade with hlt | hge
  · obtain rfl : k = 0 := hk.resolve_right (Nat.not_le.2 hlt)
    rw [Nat.zero_mul, Nat.zero_add, unitsOf, if_pos hlt, Nat.pow_zero, Nat.mul_one]
  · rw [unitsOf_of_le (hge.trans (Nat.le_add_left _ _))]
    rcases Nat.eq_or_lt_of_le hq with rfl | hlt
    · -- the end of the binade is the start of the next one
      have hsum : k * binade + 2 * binade = (k + 2) * binade := (Nat.add_mul k 2 binade).symm
      rw [hsum, Nat.mul_mod_left, Nat.mul_div_cancel _ hpos, Nat.add_zero, show k + 2 - 1 = k + 1 by omega,
        Nat.pow_succ, Nat.mul_comm (2 ^ k), ← Nat.mul_assoc, Nat.mul_comm binade]
    · have hsum : k * binade + q = (q - binade) + binade * (k + 1) := by
        rw [Nat.mul_succ, Nat.mul_comm]
        omega
      have hrest : q - binade < binade := by omega
      rw [hsum, Nat.add_mul_mod_self_left, Nat.mod_eq_of_lt hrest, Nat.add_mul_div_left _ _ hpos,
        Nat.div_eq_of_lt hrest, Nat.add_sub_cancel' hge]
      congr 2
      omega

/-- every magnitude counts steps of its binade -/
theorem exists_steps (m : Nat) : ∃ k q, m = k * binade + q ∧ q < 2 * binade ∧ (k = 0 ∨ binade ≤ q) := by
  have hdiv := Nat.div_add_mod m binade
  have hmod := Nat.mod_lt m (show 0 < binade by decide)
  rcases Nat.eq_zero_or_pos (m / binade) with h0 | hpos
  · rw [h0, Nat.mul_zero, Nat.zero_add] at hdiv
    exact ⟨0, m, by omega, by omega, .inl rfl⟩
  · obtain ⟨k, hk⟩ := Nat.exists_eq_add_of_le' hpos
    rw [hk, Nat.mul_succ, Nat.mul_comm] at hdiv
    exact ⟨k, binade + m % binade, by omega, by omega, .inr (Nat.le_add_right _ _)⟩

theorem strictMono_unitsOf : StrictMono unitsOf := by
  apply strictMono_nat_of_lt_succ
  intro m
  obtain ⟨k, q, rfl, hq, hk⟩ := exists_steps m
  rw [Nat.add_assoc, unitsOf_steps (by omega) hk, unitsOf_steps (by omega) (hk.imp_right fun h => by omega)]
  exact Nat.mul_lt_mul_of_pos_right (Nat.lt_succ_self q) (Nat.two_pow_pos k)

theorem unitsOf_infinity : unitsOf infinity = binade * 2 ^ 254 :=
  unitsOf_steps (k := 254) (by omega) (.inr le_rfl)

/-! ## Nearest magnitudes -/

/-- a value, in units, rounds to a magnitude: none is nearer, and of two that are equally near it is the even one -/
structure IsNearest (v : ℚ) (m : Nat) : Prop where
  le_infinity : m ≤ infinity
  closest : ∀ k ≤ infinity, |(unitsOf m : ℚ) - v| ≤ |(unitsOf k : ℚ) - v|
  even : ∀ k ≤ infinity, k ≠ m → |(unitsOf m : ℚ) - v| = |(unitsOf k : ℚ) - v| → m % 2 = 0

section

variable {v : ℚ} {k m m' : Nat}

theorem cast_unitsOf_le (h : k ≤ m) : (unitsOf k : ℚ) ≤ unitsOf m := by
  exact_mod_cast strictMono_unitsOf.monotone h

theorem cast_unitsOf_lt (h : k < m) : (unitsOf k : ℚ) < unitsOf m := by
  exact_mod_cast strictMono_unitsOf h

/-- the distance of a magnitude that is not above a value -/
theorem distance_of_le (h : (unitsOf m : ℚ) ≤ v) : |(unitsOf m : ℚ) - v| = v - unitsOf m := by
  rw [abs_sub_comm, abs_of_nonneg (sub_nonneg.2 h)]

/-- the distance of a magnitude that is not below a value -/
theorem distance_of_ge (h : v ≤ unitsOf m) : |(unitsOf m : ℚ) - v| = unitsOf m - v :=
  abs_of_nonneg (sub_nonneg.2 h)

/-- a value between two neighbours that is nearer to the lower one, or as near and the lower one is even -/
theorem isNearest_lower (hlo : (unitsOf m : ℚ) ≤ v) (hhi : v < unitsOf (m + 1)) (hm : m < infinity)
    (hnear : 2 * v < unitsOf m + unitsOf (m + 1) ∨ 2 * v = unitsOf m + unitsOf (m + 1) ∧ m % 2 = 0) :
    IsNearest v m := by
  have hle : 2 * v ≤ unitsOf m + unitsOf (m + 1) := hnear.elim le_of_lt fun h => h.1.le
  refine ⟨hm.le, ?_, ?_⟩
  · intro k _
    rw [distance_of_le hlo]
    rcases Nat.lt_or_ge m k with hk | hk
    · have hmono := cast_unitsOf_le hk
      rw [distance_of_ge (hhi.le.trans hmono)]
      linarith
    · have hmono := cast_unitsOf_le hk
      rw [distance_of_le (hmono.trans hlo)]
      linarith
  · intro k _ hne heq
    rw [distance_of_le hlo] at heq
    rcases Nat.lt_or_ge m k with hk | hk
    · have hmono := cast_unitsOf_le hk
      rw [distance_of_ge (hhi.le.trans hmono)] at heq
      rcases hnear with hlt | ⟨-, heven⟩
      · linarith
      · exact heven
    · have hmono := cast_unitsOf_lt (lt_of_le_of_ne hk hne)
      rw [distance_of_le (hmono.le.trans hlo)] at heq
      linarith

/-- a value between two neighbours that is nearer to the upper one, or as near and the upper one is even -/
theorem isNearest_upper (hlo : (unitsOf m : ℚ) ≤ v) (hhi : v < unitsOf (m + 1)) (hm : m < infinity)
    (hnear : (unitsOf m : ℚ) + unitsOf (m + 1) < 2 * v ∨ unitsOf m + unitsOf (m + 1) = 2 * v ∧ m % 2 = 1) :
    IsNearest v (m + 1) := by
  have hle : (unitsOf m : ℚ) + unitsOf (m + 1) ≤ 2 * v := hnear.elim le_of_lt fun h => h.1.le
  refine ⟨hm, ?_, ?_⟩
  · intro k _
    rw [distance_of_ge hhi.le]
    rcases Nat.lt_or_ge m k with hk | hk
    · have hmono := cast_unitsOf_le hk
      rw [distance_of_ge (hhi.le.trans hmono)]
      linarith
    · have hmono := cast_unitsOf_le hk
      rw [distance_of_le (hmono.trans hlo)]
      linarith
  · intro k _ hne heq
    rw [distance_of_ge hhi.le] at heq
    rcases Nat.lt_or_ge m k with hk | hk
    · have hmono := cast_unitsOf_lt (lt_of_le_of_ne hk (Ne.symm hne))
      rw [distance_of_ge (hhi.le.trans hmono.le)] at heq
      linarith
    · have hmono := cast_unitsOf_le hk
      rw [distance_of_le (hmono.trans hlo)] at heq
      rcases hnear with hlt | ⟨-, hodd⟩
      · linarith
      · omega

/-- a value that reaches the one of infinity -/
theorem isNearest_infinity (h : (unitsOf infinity : ℚ) ≤ v) : IsNearest v infinity := by
  refine ⟨le_rfl, ?_, fun _ _ _ _ => rfl⟩
  intro k hk
  have hmono := cast_unitsOf_le hk
  rw [distance_of_le h, distance_of_le (hmono.trans h)]
  linarith

/-- a value below half a unit -/
theorem isNearest_zero (h0 : 0 ≤ v) (h : 2 * v < 1) : IsNearest v 0 := by
  have hzero : (unitsOf 0 : ℚ) = 0 := by rw [show unitsOf 0 = 0 from rfl, Nat.cast_zero]
  have hone : (unitsOf (0 + 1) : ℚ) = 1 := by rw [show unitsOf (0 + 1) = 1 from rfl, Nat.cast_one]
  refine isNearest_lower ?_ ?_ (by decide) (.inl ?_) <;> linarith

/-- of two magnitudes that are equally near, both even, the one between them is nearer -/
theorem IsNearest.not_lt (h : IsNearest v m) (h' : IsNearest v m') : ¬m < m' := by
  intro hlt
  have heq := le_antisymm (h.closest m' h'.le_infinity) (h'.closest m h.le_infinity)
  have heven := h.even m' h'.le_infinity hlt.ne' heq
  have heven' := h'.even m h.le_infinity hlt.ne heq.symm
  have hlow := cast_unitsOf_lt (Nat.lt_succ_self m)
  have hhigh := cast_unitsOf_lt (show m + 1 < m' by omega)
  have hmid := h.closest (m + 1) (hlt.trans_le h'.le_infinity)
  rcases abs_cases ((unitsOf m : ℚ) - v) with ⟨h1, h2⟩ | ⟨h1, h2⟩ <;>
  rcases abs_cases ((unitsOf m' : ℚ) - v) with ⟨h3, h4⟩ | ⟨h3, h4⟩ <;>
  rcases abs_cases ((unitsOf (m + 1) : ℚ) - v) with ⟨h5, h6⟩ | ⟨h5, h6⟩ <;>
  linarith

/-- a value rounds to one magnitude only -/
theorem IsNearest.unique (h : IsNearest v m) (h' : IsNearest v m') : m = m' :=
  le_antisymm (Nat.not_lt.1 (h'.not_lt h)) (Nat.not_lt.1 (h.not_lt h'))

end

/-! ## Rounding of quotients -/

/-- a quotient in the steps that `nearest` counts it in: below the end of a binade, and from its start on unless the
steps are units -/
theorem steps_bounds (num den : Nat) :
    num / (den * 2 ^ ((num / den).log2 - 23)) < 2 * binade ∧
      ((num / den).log2 - 23 = 0 ∨ binade ≤ num / (den * 2 ^ ((num / den).log2 - 23))) := by
  have hbinade : binade = 2 ^ 23 := rfl
  rw [← Nat.div_div_eq_div_mul]
  generalize num / den = n
  refine ⟨?_, ?_⟩
  · rw [Nat.div_lt_iff_lt_mul (Nat.two_pow_pos _), hbinade, ← Nat.pow_succ', ← Nat.pow_add]
    exact Nat.lt_log2_self.trans_le (Nat.pow_le_pow_right (by decide) (by omega))
  · rcases Nat.eq_zero_or_pos (n.log2 - 23) with h0 | hpos
    · exact .inl h0
    · right
      have hn : n ≠ 0 := by
        rintro rfl
        simp at hpos
      rw [Nat.le_div_iff_mul_le (Nat.two_pow_pos _), hbinade, ← Nat.pow_add, Nat.add_sub_cancel' (by omega)]
      exact Nat.log2_self_le hn

/-- the whole number that a value from `q` up to `q + 1` rounds to: the nearer one of the two, or the even one -/
inductive RoundsTo (w : ℚ) (q : Nat) : Nat → Prop
  | down (h : 2 * w < 2 * q + 1 ∨ 2 * w = 2 * q + 1 ∧ q % 2 = 0) : RoundsTo w q q
  | up (h : 2 * q + 1 < 2 * w ∨ 2 * q + 1 = 2 * w ∧ q % 2 = 1) : RoundsTo w q (q + 1)

theorem roundsTo_halfEven (num : Nat) {den : Nat} (hden : 0 < den) :
    RoundsTo (num / den) (num / den) (halfEven num den) := by
  have hpos : (0 : ℚ) < den := by exact_mod_cast hden
  have hnum : (num : ℚ) = (num / den : Nat) * den + (num % den : Nat) := by
    exact_mod_cast (Nat.div_add_mod' num den).symm
  have hvalue : (num / den : ℚ) = (num / den : Nat) + (num % den : Nat) / den := by
    rw [hnum, add_div, mul_div_cancel_right₀ _ hpos.ne']
  rw [hvalue, halfEven]
  generalize num / den = q
  generalize num % den = rest
  split_ifs with hlow hhigh
  · have hrest : (rest : ℚ) / den < 1 / 2 := by
      have : (2 * rest : ℚ) < den := by exact_mod_cast hlow
      rw [div_lt_iff₀ hpos]
      linarith
    exact .down (.inl (by linarith))
  · have hrest : 1 / 2 < (rest : ℚ) / den := by
      have : (den : ℚ) < 2 * rest := by exact_mod_cast hhigh
      rw [lt_div_iff₀ hpos]
      linarith
    exact .up (.inl (by linarith))
  · have hrest : (rest : ℚ) / den = 1 / 2 := by
      have : (2 * rest : ℚ) = den := by exact_mod_cast le_antisymm (Nat.not_lt.1 hhigh) (Nat.not_lt.1 hlow)
      rw [div_eq_iff hpos.ne']
      linarith
    rcases Nat.mod_two_eq_zero_or_one q with heven | hodd
    · rw [heven]
      exact .down (.inr ⟨by linarith, heven⟩)
    · rw [hodd]
      exact .up (.inr ⟨by linarith, hodd⟩)

/-- a value of `w` steps of a binade, `q` of them whole, rounds to the magnitude of the steps that `w` rounds to -/
theorem isNearest_steps {k q r : Nat} {w : ℚ} (hend : q < 2 * binade) (hstart : k = 0 ∨ binade ≤ q) (hlo : (q : ℚ) ≤ w)
    (hhi : w < q + 1) (hr : RoundsTo w q r) : IsNearest (w * 2 ^ k) (min (k * binade + r) infinity) := by
  have hpow : (0 : ℚ) < 2 ^ k := by positivity
  have hlow : (unitsOf (k * binade + q) : ℚ) = q * 2 ^ k := by
    rw [unitsOf_steps (by omega) hstart]
    push_cast
    rfl
  have hhigh : (unitsOf (k * binade + q + 1) : ℚ) = (q + 1) * 2 ^ k := by
    rw [Nat.add_assoc, unitsOf_steps (by omega) (hstart.imp_right fun h => by omega)]
    push_cast
    rfl
  have hle : (unitsOf (k * binade + q) : ℚ) ≤ w * 2 ^ k := by
    rw [hlow]
    gcongr
  have hlt : w * 2 ^ k < unitsOf (k * binade + q + 1) := by
    rw [hhigh]
    gcongr
  have hmid : (unitsOf (k * binade + q) + unitsOf (k * binade + q + 1) : ℚ) = (2 * q + 1) * 2 ^ k := by
    rw [hlow, hhigh]
    ring
  have hparity : (k * binade + q) % 2 = q % 2 := by
    rw [Nat.add_mod, Nat.mul_mod, show binade % 2 = 0 from rfl]
    simp
  by_cases hm : k * binade + q < infinity
  · cases hr with
    | down hnear =>
      rw [min_eq_left hm.le]
      refine isNearest_lower hle hlt hm ?_
      rw [hmid, hparity, ← mul_assoc]
      exact hnear.imp (mul_lt_mul_of_pos_right · hpow) (And.imp_left (congrArg (· * 2 ^ k)))
    | up hnear =>
      rw [← Nat.add_assoc, min_eq_left (show k * binade + q + 1 ≤ infinity from hm)]
      refine isNearest_upper hle hlt hm ?_
      rw [hmid, hparity, ← mul_assoc]
      exact hnear.imp (mul_lt_mul_of_pos_right · hpow) (And.imp_left (congrArg (· * 2 ^ k)))
  · have hle' : infinity ≤ k * binade + q := Nat.not_lt.1 hm
    have hqr : q ≤ r := by cases hr <;> omega
    rw [min_eq_right (hle'.trans (Nat.add_le_add_left hqr _))]
    exact isNearest_infinity ((cast_unitsOf_le hle').trans hle)

/-- a quotient rounds to its nearest magnitude -/
theorem isNearest_nearest (num : Nat) {den : Nat} (hden : 0 < den) : IsNearest (num / den : ℚ) (nearest num den) := by
  obtain ⟨hend, hstart⟩ := steps_bounds num den
  have hnearest : nearest num den = min (((num / den).log2 - 23) * binade +
      halfEven num (den * 2 ^ ((num / den).log2 - 23))) infinity := rfl
  rw [hnearest]
  generalize (num / den).log2 - 23 = k at *
  have hsteps : 0 < den * 2 ^ k := Nat.mul_pos hden (Nat.two_pow_pos k)
  have hpos : (0 : ℚ) < (den * 2 ^ k : Nat) := by exact_mod_cast hsteps
  have hvalue : (num / den : ℚ) = num / (den * 2 ^ k : Nat) * 2 ^ k := by
    push_cast
    rw [← div_div, div_mul_cancel₀ _ (by positivity)]
  rw [hvalue]
  refine isNearest_steps hend hstart Nat.cast_div_le ?_ (roundsTo_halfEven num hsteps)
  rw [div_lt_iff₀ hpos]
  exact_mod_cast Nat.lt_mul_of_div_lt (Nat.lt_succ_self (num / (den * 2 ^ k))) hsteps

end Single

/-! ## Decimals -/

namespace Decimal

/-- the value of a decimal, in units -/
def units (d : Decimal) : ℚ := d.significand * 10 ^ d.exponent * Single.unitsInOne

theorem quotient_pos (d : Decimal) : 0 < d.quotient.2 := by
  obtain ⟨q, k | k⟩ := d
  · exact Nat.one_pos
  · exact Nat.pow_pos (by decide)

theorem units_eq_quotient (d : Decimal) : d.units = d.quotient.1 / d.quotient.2 := by
  obtain ⟨q, k | k⟩ := d
  · simp only [units, quotient, Int.ofNat_eq_natCast, zpow_natCast, Nat.pow_eq]
    push_cast
    rw [div_one]
  · simp only [units, quotient, zpow_negSucc, Nat.pow_eq]
    push_cast
    rw [mul_right_comm, ← div_eq_mul_inv]

theorem digitCount_pos (n : Nat) : 0 < digitCount n := List.length_pos_iff.2 Nat.toDigits_ne_nil

/-- a positive number has as many digits as the first power of ten above it has zeros -/
theorem pow_digitCount_bounds {n : Nat} (h : n ≠ 0) : 10 ^ (digitCount n - 1) ≤ n ∧ n < 10 ^ digitCount n := by
  refine ⟨?_, (digitCount_le_iff (digitCount_pos n)).1 le_rfl⟩
  rcases Nat.eq_zero_or_pos (digitCount n - 1) with h0 | hpos
  · rw [h0]
    exact Nat.pos_of_ne_zero h
  · have hlt : ¬digitCount n ≤ digitCount n - 1 := by omega
    rwa [digitCount_le_iff hpos, Nat.not_lt] at hlt

/-- a positive decimal lies below the power of ten that its digits and its exponent give, and not below the one before -/
theorem units_bounds {d : Decimal} (h : d.significand ≠ 0) :
    10 ^ (d.lead - 1) * (Single.unitsInOne : ℚ) ≤ d.units ∧ d.units < 10 ^ d.lead * (Single.unitsInOne : ℚ) := by
  obtain ⟨hlow, hhigh⟩ := pow_digitCount_bounds h
  have hpos := digitCount_pos d.significand
  have hlead : d.lead = (digitCount d.significand : ℤ) + d.exponent := Int.add_comm _ _
  have hbefore : d.lead - 1 = ((digitCount d.significand - 1 : Nat) : ℤ) + d.exponent := by omega
  have hone : (0 : ℚ) < Single.unitsInOne := by exact_mod_cast Nat.two_pow_pos 149
  rw [hbefore, hlead, zpow_add₀ (by norm_num), zpow_add₀ (by norm_num), zpow_natCast, zpow_natCast, units]
  constructor
  · gcongr
    exact_mod_cast hlow
  · gcongr
    exact_mod_cast hhigh

/-- **Decimals are rounded correctly.** The magnitude of a decimal is the one nearest to its value. -/
theorem isNearest_magnitude (d : Decimal) : Single.IsNearest d.units d.magnitude := by
  have hone : (Single.unitsInOne : ℚ) = 2 ^ 149 := by norm_num [Single.unitsInOne]
  rw [magnitude]
  split
  next h =>
    have hzero : d.units = 0 := by rw [units, h, Nat.cast_zero, zero_mul, zero_mul]
    exact Single.isNearest_zero hzero.ge (by linarith)
  next h =>
  obtain ⟨hlow, hhigh⟩ := units_bounds h
  rw [hone] at hlow hhigh
  split
  next hlead =>
    have hpow : (10 : ℚ) ^ (40 : ℤ) ≤ 10 ^ (d.lead - 1) := zpow_le_zpow_right₀ (by norm_num) (by omega)
    apply Single.isNearest_infinity
    calc (Single.unitsOf Single.infinity : ℚ) = 2 ^ 128 * 2 ^ 149 := by
          rw [Single.unitsOf_infinity, Single.binade]
          norm_num
      _ ≤ 10 ^ (40 : ℤ) * 2 ^ 149 := by norm_num
      _ ≤ 10 ^ (d.lead - 1) * 2 ^ 149 := by gcongr
      _ ≤ d.units := hlow
  next =>
  split
  next hlead =>
    have hpow : (10 : ℚ) ^ d.lead ≤ 10 ^ (-46 : ℤ) := zpow_le_zpow_right₀ (by norm_num) (by omega)
    apply Single.isNearest_zero
    · exact (by positivity : (0 : ℚ) ≤ _).trans hlow
    · calc 2 * d.units < 2 * (10 ^ d.lead * 2 ^ 149) := by linarith
        _ ≤ 2 * (10 ^ (-46 : ℤ) * 2 ^ 149) := by gcongr
        _ ≤ 1 := by norm_num
  next =>
    rw [units_eq_quotient]
    exact Single.isNearest_nearest _ d.quotient_pos

end Decimal

end ArrayEngine
