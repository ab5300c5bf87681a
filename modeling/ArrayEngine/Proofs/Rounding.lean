/-
Rounding to single precision, and the decimals that read back.

`nearest` depends on a quotient only through its value (`nearest_mul`), and the value of a finite magnitude rounds to
the magnitude itself (`nearest_unitsOf`). So
- `magnitude_shift`: digits may move between significand and exponent of a decimal;
- `magnitude_exactDecimal`: the exact decimal of a magnitude reads back, and with it
- `magnitude_shortest`: whatever `shortest` answers.
-/
import Mathlib.Tactic
import ArrayEngine.Single.Decimal

namespace ArrayEngine

namespace Single

/-! ## Rounding of quotients -/

theorem halfEven_mul {c : Nat} (hc : 0 < c) (num den : Nat) : halfEven (c * num) (c * den) = halfEven num den := by
  have hlt : 2 * (c * (num % den)) < c * den ↔ 2 * (num % den) < den := by
    rw [Nat.mul_left_comm]
    exact Nat.mul_lt_mul_left hc
  have hgt : c * den < 2 * (c * (num % den)) ↔ den < 2 * (num % den) := by
    rw [Nat.mul_left_comm]
    exact Nat.mul_lt_mul_left hc
  simp only [halfEven, Nat.mul_div_mul_left _ _ hc, Nat.mul_mod_mul_left, hlt, hgt]

/-- a quotient rounds by its value -/
theorem nearest_mul {c : Nat} (hc : 0 < c) (num den : Nat) : nearest (c * num) (c * den) = nearest num den := by
  simp only [nearest, Nat.mul_div_mul_left _ _ hc, Nat.mul_assoc, halfEven_mul hc]

theorem halfEven_mul_self (q : Nat) {den : Nat} (hd : 0 < den) : halfEven (q * den) den = q := by
  have hq : q * den / den = q := Nat.mul_div_cancel q hd
  have hr : q * den % den = 0 := Nat.mul_mod_left q den
  simp only [halfEven, hq, hr, Nat.mul_zero, if_pos hd]

/-- the value of a magnitude from one binade on: a significand of 24 bits, shifted -/
theorem unitsOf_of_le {m : Nat} (h : binade ≤ m) :
    unitsOf m = (binade + m % binade) * 2 ^ (m / binade - 1) := if_neg (Nat.not_lt.2 h)

theorem log2_significand {f k : Nat} (hf : f < binade) : ((binade + f) * 2 ^ k).log2 = 23 + k := by
  have hbinade : binade = 2 ^ 23 := rfl
  have hpos : 0 < 2 ^ k := Nat.two_pow_pos k
  have hne : (binade + f) * 2 ^ k ≠ 0 := by
    rw [hbinade]
    positivity
  rw [Nat.log2_eq_iff hne]
  refine ⟨?_, ?_⟩
  · rw [Nat.pow_add, ← hbinade]
    exact Nat.mul_le_mul_right _ (Nat.le_add_right _ _)
  · rw [show 23 + k + 1 = 24 + k by omega, Nat.pow_add]
    refine Nat.mul_lt_mul_of_pos_right ?_ hpos
    rw [hbinade] at hf ⊢
    omega

/-- a significand that is shifted as far as its size asks for rounds without a remainder -/
theorem nearest_significand {q k : Nat} (hk : (q * 2 ^ k).log2 - 23 = k) :
    nearest (q * 2 ^ k) 1 = min (k * binade + q) infinity := by
  have hhalf : halfEven (q * 2 ^ k) (1 * Nat.pow 2 k) = q := by
    rw [Nat.one_mul]
    exact halfEven_mul_self q (Nat.two_pow_pos k)
  simp only [nearest, Nat.div_one, hk, hhalf]

/-- a finite number rounds to itself -/
theorem nearest_unitsOf {m : Nat} (hm : m ≤ infinity) : nearest (unitsOf m) 1 = m := by
  by_cases h : m < binade
  · have hu : unitsOf m = m * 2 ^ 0 := by rw [unitsOf, if_pos h, Nat.pow_zero, Nat.mul_one]
    have hlog : (m * 2 ^ 0).log2 - 23 = 0 := by
      rw [Nat.pow_zero, Nat.mul_one]
      by_cases h0 : m = 0
      · rw [h0]
        decide
      · have hlt : m.log2 < 23 := (Nat.log2_lt h0).2 h
        omega
    rw [hu, nearest_significand hlog, Nat.zero_mul, Nat.zero_add]
    exact Nat.min_eq_left hm
  · have hle : binade ≤ m := Nat.not_lt.1 h
    have hlog := log2_significand (f := m % binade) (k := m / binade - 1) (Nat.mod_lt m (by decide))
    rw [unitsOf_of_le hle, nearest_significand (by omega)]
    have hdiv := Nat.div_add_mod m binade
    have hone : 1 ≤ m / binade := (Nat.one_le_div_iff (by decide)).2 hle
    have hsum : (m / binade - 1) * binade + (binade + m % binade) = m := by
      rw [← Nat.add_assoc, ← Nat.succ_mul, Nat.succ_eq_add_one, Nat.sub_add_cancel hone, Nat.mul_comm]
      exact hdiv
    rw [hsum]
    exact Nat.min_eq_left hm

end Single

/-! ## Decimals -/

namespace Decimal

theorem digitCount_le_iff {n k : Nat} (hk : 0 < k) : digitCount n ≤ k ↔ n < 10 ^ k :=
  Nat.length_toDigits_le_iff (by decide) hk

theorem digitCount_mul_pow {n : Nat} (hn : 0 < n) (k : Nat) : digitCount (n * 10 ^ k) = digitCount n + k := by
  induction k with
  | zero => rw [Nat.pow_zero, Nat.mul_one, Nat.add_zero]
  | succ k ih =>
    have hpos : 0 < n * 10 ^ k := by positivity
    have happend := Nat.toDigits_append_toDigits (b := 10) (by decide) hpos (by decide : 0 < 10)
    have hnext : n * 10 ^ (k + 1) = 10 * (n * 10 ^ k) + 0 := by ring
    rw [hnext, digitCount, ← happend, List.length_append, Nat.toDigits_zero, ← Nat.add_assoc, ← ih]
    rfl

/-- digits may move from the exponent to the significand -/
theorem magnitude_shift (q k : Nat) : magnitude ⟨q * 10 ^ (k + 1), -1⟩ = magnitude ⟨q, k⟩ := by
  by_cases hq : q = 0
  · simp only [magnitude, hq, Nat.zero_mul, if_true]
  · have hpos : 0 < q := Nat.pos_of_ne_zero hq
    have hne : q * 10 ^ (k + 1) ≠ 0 := by positivity
    have hlead : lead ⟨q * 10 ^ (k + 1), -1⟩ = lead ⟨q, k⟩ := by
      simp only [lead, digitCount_mul_pow hpos]
      omega
    have hquot : Single.nearest (quotient ⟨q * 10 ^ (k + 1), -1⟩).1 (quotient ⟨q * 10 ^ (k + 1), -1⟩).2 =
        Single.nearest (quotient ⟨q, k⟩).1 (quotient ⟨q, k⟩).2 := by
      have hnum : q * 10 ^ (k + 1) * Single.unitsInOne = 10 * (q * 10 ^ k * Single.unitsInOne) := by ring
      change Single.nearest (q * 10 ^ (k + 1) * Single.unitsInOne) (10 * 1) = _
      rw [hnum, Single.nearest_mul (by decide)]
      rfl
    simp only [magnitude, if_neg hq, if_neg hne, hlead, hquot]

end Decimal

namespace Single

theorem unitsOf_pos {m : Nat} (h0 : 0 < m) : 0 < unitsOf m := by
  by_cases h : m < binade
  · rw [unitsOf, if_pos h]
    exact h0
  · rw [unitsOf_of_le (Nat.not_lt.1 h)]
    exact Nat.mul_pos (Nat.add_pos_left (by decide) _) (Nat.two_pow_pos _)

theorem unitsOf_lt {m : Nat} (hm : m < infinity) : unitsOf m < 2 ^ 24 * 2 ^ 253 := by
  by_cases h : m < binade
  · rw [unitsOf, if_pos h]
    exact h.trans (by norm_num [binade])
  · have hq : m / binade - 1 ≤ 253 := by
      have hlt : m / binade < 255 := (Nat.div_lt_iff_lt_mul (by decide)).2 hm
      omega
    have hf : binade + m % binade < 2 ^ 24 := by
      have hlt := Nat.mod_lt m (show 0 < binade by decide)
      have hbinade : binade = 2 ^ 23 := rfl
      omega
    rw [unitsOf_of_le (Nat.not_lt.1 h)]
    calc (binade + m % binade) * 2 ^ (m / binade - 1) < 2 ^ 24 * 2 ^ (m / binade - 1) :=
          Nat.mul_lt_mul_of_pos_right hf (Nat.two_pow_pos _)
      _ ≤ 2 ^ 24 * 2 ^ 253 := Nat.mul_le_mul_left _ (Nat.pow_le_pow_right (by decide) hq)

/-- the exact decimal of a finite positive magnitude reads back -/
theorem magnitude_exactDecimal {m : Nat} (h0 : 0 < m) (hm : m < infinity) : (exactDecimal m).magnitude = m := by
  have hpos := unitsOf_pos h0
  have hlow : ¬Decimal.digitCount (unitsOf m * 5 ^ 149) ≤ 104 := by
    rw [Decimal.digitCount_le_iff (by decide), Nat.not_lt]
    calc 10 ^ 104 ≤ 1 * 5 ^ 149 := by norm_num
      _ ≤ unitsOf m * 5 ^ 149 := Nat.mul_le_mul_right _ hpos
  have hhigh : Decimal.digitCount (unitsOf m * 5 ^ 149) ≤ 188 := by
    rw [Decimal.digitCount_le_iff (by decide)]
    calc unitsOf m * 5 ^ 149 < 2 ^ 24 * 2 ^ 253 * 5 ^ 149 := Nat.mul_lt_mul_of_pos_right (unitsOf_lt hm) (by positivity)
      _ ≤ 10 ^ 188 := by norm_num
  have hlead : (exactDecimal m).lead = -149 + Decimal.digitCount (unitsOf m * 5 ^ 149) := rfl
  have hne : (exactDecimal m).significand ≠ 0 := (Nat.mul_pos hpos (show 0 < 5 ^ 149 by positivity)).ne'
  have hnum : unitsOf m * 5 ^ 149 * 2 ^ 149 = 10 ^ 149 * unitsOf m := by
    rw [Nat.mul_assoc, ← Nat.mul_pow, Nat.mul_comm]
  have hquot : (exactDecimal m).quotient = (unitsOf m * 5 ^ 149 * 2 ^ 149, 10 ^ 149 * 1) := rfl
  rw [Decimal.magnitude, if_neg hne, if_neg (by omega), if_neg (by omega), hquot, hnum, nearest_mul (by positivity)]
  exact nearest_unitsOf hm.le

theorem magnitude_readingBack {m : Nat} {below above d : Decimal} {nearer : Bool}
    (h : readingBack m below above nearer = some d) : d.magnitude = m := by
  unfold readingBack at h
  split at h
  · next hb ha =>
    cases nearer <;> cases h
    · exact eq_of_beq ha
    · exact eq_of_beq hb
  · next hb ha =>
    cases h
    exact eq_of_beq hb
  · next hb ha =>
    cases h
    exact eq_of_beq ha
  · cases h

theorem magnitude_onGrid {m n : Nat} {d : Decimal} (h : onGrid m n = some d) : d.magnitude = m :=
  magnitude_readingBack h

/-- the decimal that is written for a finite positive magnitude reads back -/
theorem magnitude_shortest {m : Nat} (h0 : 0 < m) (hm : m < infinity) : (shortest m).magnitude = m := by
  unfold shortest
  cases hfind : (List.range' 1 9).findSome? (onGrid m) with
  | none => exact magnitude_exactDecimal h0 hm
  | some d =>
    obtain ⟨n, -, hn⟩ := List.exists_of_findSome?_eq_some hfind
    exact magnitude_onGrid hn

end Single

end ArrayEngine
