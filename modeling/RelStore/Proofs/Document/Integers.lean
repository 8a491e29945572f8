import Mathlib.Tactic.NormNum
import RelStore.Proofs.Binary64
import RelStore.Proofs.Document

/-! The integers of cells: which numbers of a document are taken for which integers. -/
namespace RelStore

def Json.Number.toRat : Json.Number → ℚ
  | natural n => n
  | negative n => -n
  | real x => x.toRat

/-- The numbers that are too large for an integer by so little that they are taken for the
largest one: the first number that is too large, and the whole numbers that are rounded to it. -/
def Json.Number.IsNextToLargest : Json.Number → Prop
  | natural n => 2 ^ 63 ≤ n ∧ n ≤ 2 ^ 63 + 1024
  | negative _ => False
  | real x => x.toRat = 2 ^ 63

namespace Cell

theorem ofWhole?_eq_some_iff {z : ℤ} {i : Int64} :
    ofWhole? z = some (.int i) ↔ z = i.toInt ∨ z = 2 ^ 63 ∧ i = Int64.maxValue := by
  have hmin : Int64.minValue.toInt = -2 ^ 63 := rfl
  have hmax : Int64.maxValue.toInt = 2 ^ 63 - 1 := rfl
  constructor
  · intro h
    rw [ofWhole?, Option.ite_none_right_eq_some] at h
    obtain ⟨⟨hlow, hhigh⟩, hi⟩ := h
    cases hi
    by_cases hz : z ≤ Int64.maxValue.toInt
    · left
      rw [Int.min_eq_left hz, Int64.toInt_ofInt_of_le (by omega) (by omega)]
    · right
      refine ⟨by omega, ?_⟩
      rw [Int.min_eq_right (by omega), Int64.ofInt_toInt]
  · rintro (rfl | ⟨rfl, rfl⟩)
    · exact ofWhole?_toInt i
    · rfl

theorem int_of_ofWhole? {z : ℤ} {v : Value} (h : ofWhole? z = some v) : ∃ i, v = .int i := by
  rw [ofWhole?, Option.ite_none_right_eq_some] at h
  exact ⟨_, (Option.some.inj h.2).symm⟩

theorem int_of_integer? {n : Json.Number} {v : Value} (h : integer? n = some v) :
    ∃ i, v = .int i := by
  cases n with
  | natural n =>
    rw [integer?] at h
    split at h
    · exact int_of_ofWhole? h
    · obtain ⟨z, -, hz⟩ := Option.bind_eq_some_iff.1 h
      exact int_of_ofWhole? hz
  | negative n => exact int_of_ofWhole? h
  | real x =>
    obtain ⟨z, -, hz⟩ := Option.bind_eq_some_iff.1 h
    exact int_of_ofWhole? hz

theorem toInt?_bind_ofWhole? {x : Binary64} {i : Int64} :
    x.toInt?.bind ofWhole? = some (.int i) ↔
      x.toRat = i.toInt ∨ x.toRat = 2 ^ 63 ∧ i = Int64.maxValue := by
  have hlimit : x.toRat = 2 ^ 63 ↔ x.toRat = ((2 ^ 63 : ℤ) : ℚ) := by norm_num
  rw [Option.bind_eq_some_iff, hlimit]
  simp only [Binary64.toInt?_eq_some_iff, ofWhole?_eq_some_iff]
  constructor
  · rintro ⟨z, hz, rfl | ⟨rfl, rfl⟩⟩
    · exact .inl hz
    · exact .inr ⟨hz, rfl⟩
  · rintro (hz | ⟨hz, rfl⟩)
    · exact ⟨_, hz, .inl rfl⟩
    · exact ⟨_, hz, .inr ⟨rfl, rfl⟩⟩

theorem bound_le {n : ℕ} (hn : 2 ^ 63 ≤ n) : Binary64.bound ≤ n :=
  (by decide : Binary64.bound ≤ 2 ^ 63).trans hn

theorem log2_ge {n k : ℕ} (hn : 2 ^ k ≤ n) : k ≤ n.log2 := by
  refine (Nat.le_log2 ?_).2 hn
  have hpos := Nat.two_pow_pos k
  omega

theorem rounded_eq_limit_iff {n : ℕ} (hn : 2 ^ 63 ≤ n) :
    Binary64.roundDiv n (Binary64.unit n) * Binary64.unit n = 2 ^ 63 ↔ n ≤ 2 ^ 63 + 1024 := by
  by_cases hsize : n < 2 ^ 64
  · have hlog : n.log2 = 63 := by
      have hlt := (Nat.log2_lt (by omega)).2 hsize
      have hge := log2_ge hn
      omega
    have hunit : Binary64.unit n = 2048 := by
      rw [Binary64.unit, hlog]
      rfl
    simp only [hunit, Binary64.roundDiv]
    split <;> omega
  · have hpow : 2 ^ 64 ≤ 2 ^ n.log2 := Nat.pow_le_pow_right (by decide) (log2_ge (by omega))
    have hlarge := hpow.trans (Binary64.pow_log2_le_rounded (bound_le hn))
    omega

theorem integer?_natural_small {n : ℕ} (hn : n < 2 ^ 63) {i : Int64} :
    integer? (.natural n) = some (.int i) ↔ (n : ℤ) = i.toInt := by
  have hsize : n < UInt64.size / 2 := hn
  rw [integer?, if_pos hsize, ofWhole?_eq_some_iff]
  constructor
  · rintro (h | ⟨h, -⟩)
    · exact h
    · omega
  · exact Or.inl

theorem integer?_natural_large {n : ℕ} (hn : 2 ^ 63 ≤ n) {i : Int64} :
    integer? (.natural n) = some (.int i) ↔ n ≤ 2 ^ 63 + 1024 ∧ i = Int64.maxValue := by
  have hsize : ¬ n < UInt64.size / 2 := Nat.not_lt.2 hn
  rw [integer?, if_neg hsize]
  cases hx : Binary64.ofNat? n with
  | none =>
    -- a number that is next to the largest integer has 64 bits
    constructor
    · intro h
      cases h
    · rintro ⟨hle, -⟩
      have hmax : n < UInt64.size := lt_of_le_of_lt hle (by decide)
      obtain ⟨x, hx'⟩ := Binary64.ofNat?_exists (bound_le hn) hmax
      rw [hx] at hx'
      cases hx'
  | some x =>
    have hvalue := Binary64.toRat_ofNat? (bound_le hn) hx
    have hpow : 2 ^ 63 ≤ 2 ^ n.log2 := Nat.pow_le_pow_right (by decide) (log2_ge hn)
    have hlarge := hpow.trans (Binary64.pow_log2_le_rounded (bound_le hn))
    rw [Option.bind_some, toInt?_bind_ofWhole?, hvalue, ← rounded_eq_limit_iff hn]
    constructor
    · rintro (h | ⟨h, hi⟩)
      · have hhigh := i.toInt_lt
        have hwhole : ((Binary64.roundDiv n (Binary64.unit n) * Binary64.unit n : ℕ) : ℤ) =
          i.toInt := by exact_mod_cast h
        omega
      · exact ⟨by exact_mod_cast h, hi⟩
    · rintro ⟨h, hi⟩
      exact .inr ⟨by rw [h]; norm_num, hi⟩

theorem integer?_eq_some_iff {n : Json.Number} {i : Int64} :
    integer? n = some (.int i) ↔
      n.toRat = i.toInt ∨ n.IsNextToLargest ∧ i = Int64.maxValue := by
  cases n with
  | natural n =>
    have hcast : (n : ℚ) = i.toInt ↔ (n : ℤ) = i.toInt := by norm_cast
    rw [Json.Number.toRat, Json.Number.IsNextToLargest, hcast]
    by_cases hn : n < 2 ^ 63
    · rw [integer?_natural_small hn]
      constructor
      · exact Or.inl
      · rintro (h | ⟨⟨h, -⟩, -⟩)
        · exact h
        · omega
    · have hhigh := i.toInt_lt
      have hlarge := Nat.not_lt.1 hn
      rw [integer?_natural_large hlarge]
      constructor
      · rintro ⟨h, hi⟩
        exact .inr ⟨⟨hlarge, h⟩, hi⟩
      · rintro (h | ⟨⟨-, h⟩, hi⟩)
        · omega
        · exact ⟨h, hi⟩
  | negative n =>
    have hcast : -(n : ℚ) = i.toInt ↔ -(n : ℤ) = i.toInt := by norm_cast
    rw [Json.Number.toRat, hcast, integer?, ofWhole?_eq_some_iff]
    constructor
    · rintro (h | ⟨h, -⟩)
      · exact .inl h
      · omega
    · rintro (h | ⟨h, -⟩)
      · exact .inl h
      · exact h.elim
  | real x => exact toInt?_bind_ofWhole?

/-- A number in a cell of integers is taken for the integer that it is. One that is no integer
of 64 bits is reported as damage, unless it is next to the largest integer: then it is taken for
that one. -/
theorem integer_exact_or_largest (n : Json.Number) :
    (∀ v, toValue ⟨.int, .number n⟩ = .ok v ↔ ∃ i : Int64, v = .int i ∧
      (n.toRat = i.toInt ∨ n.IsNextToLargest ∧ i = Int64.maxValue)) ∧
    ∀ e, toValue ⟨.int, .number n⟩ = .error e ↔
      (∀ i : Int64, n.toRat ≠ i.toInt) ∧ ¬ n.IsNextToLargest ∧ e = .badInteger n.display := by
  cases hn : integer? n with
  | some v =>
    have hvalue : toValue ⟨.int, .number n⟩ = .ok v := by simp only [toValue, hn]
    obtain ⟨i, rfl⟩ := int_of_integer? hn
    have hi := integer?_eq_some_iff.1 hn
    rw [hvalue]
    refine ⟨fun v => ⟨?_, ?_⟩, fun e => ⟨?_, ?_⟩⟩
    · intro hv
      cases hv
      exact ⟨i, rfl, hi⟩
    · rintro ⟨j, rfl, hj⟩
      rw [integer?_eq_some_iff.2 hj] at hn
      rw [Option.some.inj hn]
    · intro he
      cases he
    · rintro ⟨hne, hnot, -⟩
      rcases hi with hi | ⟨hnext, -⟩
      · exact absurd hi (hne i)
      · exact absurd hnext hnot
  | none =>
    have hvalue : toValue ⟨.int, .number n⟩ = .error (.badInteger n.display) := by
      simp only [toValue, hn]
    have hnone : ∀ i : Int64, ¬ (n.toRat = i.toInt ∨ n.IsNextToLargest ∧ i = Int64.maxValue) := by
      intro i hi
      rw [integer?_eq_some_iff.2 hi] at hn
      cases hn
    rw [hvalue]
    refine ⟨fun v => ⟨?_, ?_⟩, fun e => ⟨?_, ?_⟩⟩
    · intro hv
      cases hv
    · rintro ⟨i, -, hi⟩
      exact absurd hi (hnone i)
    · intro he
      cases he
      exact ⟨fun i hi => hnone i (.inl hi), fun h => hnone _ (.inr ⟨h, rfl⟩), rfl⟩
    · rintro ⟨-, -, rfl⟩
      rfl

/-- The first number that is too large is taken for an integer that it is not. -/
theorem largest_integer_inexact :
    ¬ ∀ (n : Json.Number) (i : Int64),
      toValue ⟨.int, .number n⟩ = .ok (.int i) ↔ n.toRat = i.toInt := by
  intro h
  have hload : toValue ⟨.int, .number (.natural (2 ^ 63))⟩ = .ok (.int Int64.maxValue) := by
    decide +kernel
  have hmax : Int64.maxValue.toInt = 2 ^ 63 - 1 := rfl
  have hexact := (h _ _).1 hload
  rw [Json.Number.toRat, hmax] at hexact
  norm_num at hexact

end Cell
end RelStore
