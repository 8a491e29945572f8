import Mathlib.Algebra.Order.Field.Power
import Mathlib.Data.Rat.Cast.Order
import Mathlib.Tactic.FieldSimp
import Mathlib.Tactic.Ring
import RelStore.Binary64

/-! Finite binary floating-point numbers as the rational numbers they are, and the one that is
nearest to a large whole number. -/
namespace RelStore.Binary64

/-- The number itself. -/
def toRat (x : Binary64) : ℚ :=
  (if x.negative then -1 else 1) * (x.significand * 2 ^ x.exponent)

theorem fraction_pos (x : Binary64) : 0 < x.fraction.2 := by
  simp [fraction, Nat.shiftLeft_eq]

theorem zpow_eq_div (e : ℤ) : (2 : ℚ) ^ e = 2 ^ e.toNat / 2 ^ (-e).toNat := by
  rcases Int.le_total 0 e with he | he
  · obtain ⟨n, rfl⟩ := Int.eq_ofNat_of_zero_le he
    simp
  · obtain ⟨n, hn⟩ := Int.eq_ofNat_of_zero_le (Int.neg_nonneg_of_nonpos he)
    obtain rfl : e = -(n : ℤ) := by omega
    simp

theorem toRat_eq_fraction (x : Binary64) :
    x.toRat = (if x.negative then -1 else 1) * (x.fraction.1 / x.fraction.2) := by
  simp only [toRat, fraction, Nat.shiftLeft_eq, zpow_eq_div, Nat.cast_mul, Nat.cast_pow,
    Nat.cast_ofNat, one_mul, mul_div_assoc]

theorem div_eq_intCast_iff {num den : ℕ} (hd : 0 < den) (z : ℤ) :
    (num : ℚ) / den = z ↔ num % den = 0 ∧ z = (num / den : ℕ) := by
  have hd' : (den : ℚ) ≠ 0 := by exact_mod_cast hd.ne'
  rw [div_eq_iff hd']
  constructor
  · intro h
    have hz : (num : ℤ) = z * den := by exact_mod_cast h
    have hdvd : den ∣ num := Int.natCast_dvd_natCast.1 ⟨z, by rw [hz, mul_comm]⟩
    refine ⟨Nat.mod_eq_zero_of_dvd hdvd, ?_⟩
    rw [Int.natCast_div, hz, Int.mul_ediv_cancel _ (by exact_mod_cast hd.ne')]
  · rintro ⟨hmod, rfl⟩
    have hnum := Nat.div_mul_cancel (Nat.dvd_of_mod_eq_zero hmod)
    exact_mod_cast hnum.symm

theorem toInt?_eq_some_iff {x : Binary64} {z : ℤ} : x.toInt? = some z ↔ x.toRat = z := by
  have hdiv := @div_eq_intCast_iff x.fraction.1 _ x.fraction_pos
  rw [toRat_eq_fraction, toInt?]
  cases hneg : x.negative with
  | false =>
    simp only [Bool.false_eq_true, if_false, one_mul, hdiv]
    by_cases hmod : x.fraction.1 % x.fraction.2 = 0
    · simp [hmod, eq_comm]
    · simp [hmod]
  | true =>
    have hz : -1 * ((x.fraction.1 : ℚ) / x.fraction.2) = z ↔
        (x.fraction.1 : ℚ) / x.fraction.2 = (-z : ℤ) := by
      rw [neg_one_mul, neg_eq_iff_eq_neg, Int.cast_neg]
    simp only [if_true, hz, hdiv]
    by_cases hmod : x.fraction.1 % x.fraction.2 = 0
    · simp [hmod, eq_comm, neg_eq_iff_eq_neg]
    · simp [hmod]

theorem div_le_roundDiv (num den : ℕ) : num / den ≤ roundDiv num den := by
  unfold roundDiv
  dsimp only
  split <;> omega

def unit (n : ℕ) : ℕ := 2 ^ (n.log2 - 52)

theorem unit_pos (n : ℕ) : 0 < unit n := Nat.two_pow_pos _

theorem le_log2 {n : ℕ} (hn : bound ≤ n) : 53 ≤ n.log2 := by
  refine (Nat.le_log2 ?_).2 hn
  rintro rfl
  exact absurd hn (by decide)

/-- The rounding of a whole number is not below the power of two that is not above it. -/
theorem pow_log2_le_rounded {n : ℕ} (hn : bound ≤ n) :
    2 ^ n.log2 ≤ roundDiv n (unit n) * unit n := by
  have hlog := le_log2 hn
  have hne : n ≠ 0 := by
    rintro rfl
    exact absurd hn (by decide)
  have hpow : 2 ^ n.log2 = 2 ^ 52 * unit n := by
    rw [unit, ← Nat.pow_add, Nat.add_sub_cancel' (by omega)]
  have hdiv : 2 ^ 52 ≤ n / unit n := by
    refine (Nat.le_div_iff_mul_le (unit_pos n)).2 ?_
    rw [← hpow]
    exact Nat.log2_self_le hne
  rw [hpow]
  exact Nat.mul_le_mul_right _ (hdiv.trans (div_le_roundDiv n _))

/-- The significand counts units; one that is rounded up to the bound is halved. -/
theorem ofNat?_eq {n : ℕ} (hn : bound ≤ n) :
    ofNat? n =
      let (m, k) := if roundDiv n (unit n) = bound then (bound / 2, (n.log2 : ℤ) - 51)
        else (roundDiv n (unit n), (n.log2 : ℤ) - 52)
      if greatestExponent < k then none else some ⟨false, m, k⟩ := by
  have hlog := le_log2 hn
  have hne : n ≠ 0 := by
    rintro rfl
    exact absurd hn (by decide)
  have hlow : max leastExponent ((n.log2 : ℤ) - (Nat.log2 1 : ℕ) - 53) = (n.log2 : ℤ) - 53 := by
    rw [show Nat.log2 1 = 0 by decide, leastExponent]
    omega
  -- scaled for one digit more, the number has too many
  have hdown : (-((n.log2 : ℤ) - 53)).toNat = 0 := by omega
  have hup : ((n.log2 : ℤ) - 53).toNat = n.log2 - 53 := by omega
  have hlarge : bound ≤ n / 2 ^ (n.log2 - 53) := by
    rw [Nat.le_div_iff_mul_le (Nat.two_pow_pos _)]
    calc bound * 2 ^ (n.log2 - 53) = 2 ^ (53 + (n.log2 - 53)) := by rw [Nat.pow_add]; rfl
      _ = 2 ^ n.log2 := by rw [Nat.add_sub_cancel' hlog]
      _ ≤ n := Nat.log2_self_le hne
  have hdown' : (-((n.log2 : ℤ) - 53 + 1)).toNat = 0 := by omega
  have hup' : ((n.log2 : ℤ) - 53 + 1).toNat = n.log2 - 52 := by omega
  have hk : (n.log2 : ℤ) - 53 + 1 = (n.log2 : ℤ) - 52 := by omega
  have hk' : (n.log2 : ℤ) - 52 + 1 = (n.log2 : ℤ) - 51 := by omega
  simp only [ofNat?, nearest, hne, if_false, hlow, scaled, hdown, hup, Nat.shiftLeft_eq, one_mul,
    Nat.pow_zero, mul_one, hlarge, if_true, hdown', hup', unit]
  rw [hk, hk']
  rfl

theorem toRat_ofNat? {n : ℕ} {x : Binary64} (hn : bound ≤ n) (h : ofNat? n = some x) :
    x.toRat = (roundDiv n (unit n) * unit n : ℕ) := by
  have hlog := le_log2 hn
  have hunit : (unit n : ℚ) = 2 ^ ((n.log2 : ℤ) - 52) := by
    rw [unit, Nat.cast_pow, Nat.cast_ofNat, ← zpow_natCast]
    congr 1
    omega
  rw [ofNat?_eq hn] at h
  by_cases hcarry : roundDiv n (unit n) = bound
  · simp only [hcarry, if_true, Option.ite_none_left_eq_some, Option.some.injEq] at h
    obtain ⟨-, rfl⟩ := h
    have hhalf : (bound : ℚ) = (bound / 2 : ℕ) * 2 := by
      exact_mod_cast (by decide : bound = bound / 2 * 2)
    have hnext : (2 : ℚ) ^ ((n.log2 : ℤ) - 51) = 2 * 2 ^ ((n.log2 : ℤ) - 52) := by
      rw [← zpow_one_add₀ two_ne_zero]
      congr 1
      omega
    rw [hcarry, Nat.cast_mul, hunit, hhalf, toRat, hnext]
    simp [mul_assoc]
  · simp only [hcarry, if_false, Option.ite_none_left_eq_some, Option.some.injEq] at h
    obtain ⟨-, rfl⟩ := h
    rw [Nat.cast_mul, hunit, toRat]
    simp

theorem ofNat?_exists {n : ℕ} (hn : bound ≤ n) (hmax : n < UInt64.size) :
    ∃ x, ofNat? n = some x := by
  have hlog : n.log2 < 64 := by
    refine (Nat.log2_lt ?_).2 hmax
    rintro rfl
    exact absurd hn (by decide)
  have hgreatest : greatestExponent = 971 := rfl
  rw [ofNat?_eq hn]
  by_cases hcarry : roundDiv n (unit n) = bound
  · simp only [hcarry, if_true]
    rw [if_neg (by omega)]
    exact ⟨_, rfl⟩
  · simp only [hcarry, if_false]
    rw [if_neg (by omega)]
    exact ⟨_, rfl⟩

end RelStore.Binary64
