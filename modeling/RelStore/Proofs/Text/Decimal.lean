import Mathlib.Data.Nat.Digits.Defs
import RelStore.Text.Decimal

/-! Decimal numerals: which texts write which numbers, and that exactly these are read. -/
namespace RelStore.Text

def digitValue (c : Char) : Nat := c.toNat - 48

def IsDecimal (cs : List Char) (n : Nat) : Prop :=
  cs ≠ [] ∧ (∀ c ∈ cs, c.isDigit = true) ∧ Nat.ofDigits 10 (cs.reverse.map digitValue) = n

/-- The numerals of an integer: digits, with a sign in front or without. -/
inductive IsInteger : List Char → Int → Prop
  | plain {cs n} (h : IsDecimal cs n) : IsInteger cs n
  | plus {cs n} (h : IsDecimal cs n) : IsInteger ('+' :: cs) n
  | minus {cs n} (h : IsDecimal cs n) : IsInteger ('-' :: cs) (-(n : Int))

/-- The numerals of a natural number: digits, with a plus sign in front or without. -/
inductive IsNatural : List Char → Nat → Prop
  | plain {cs n} (h : IsDecimal cs n) : IsNatural cs n
  | plus {cs n} (h : IsDecimal cs n) : IsNatural ('+' :: cs) n

variable {cs : List Char} {n m : Nat} {s : String}

theorem digitsFrom_eq_some_iff :
    digitsFrom n cs = some m ↔ (∀ c ∈ cs, c.isDigit = true) ∧
      10 ^ cs.length * n + Nat.ofDigits 10 (cs.reverse.map digitValue) = m := by
  induction cs generalizing n with
  | nil => simp [digitsFrom]
  | cons c cs ih =>
    have hvalue : Nat.ofDigits 10 ((c :: cs).reverse.map digitValue) =
        Nat.ofDigits 10 (cs.reverse.map digitValue) + 10 ^ cs.length * digitValue c := by
      simp [Nat.ofDigits_append]
    have hpow : 10 ^ (c :: cs).length * n = 10 ^ cs.length * (10 * n) := by
      rw [List.length_cons, pow_succ, mul_assoc]
    rw [digitsFrom, hvalue, hpow, List.forall_mem_cons]
    split
    · rename_i hc
      rw [ih, mul_add]
      simp only [hc, true_and, digitValue, add_assoc]
      rw [add_comm (Nat.ofDigits _ _)]
    · rename_i hc
      simp [hc]

theorem natOfDigits?_eq_some_iff : natOfDigits? cs = some n ↔ IsDecimal cs n := by
  unfold IsDecimal
  cases cs with
  | nil => simp [natOfDigits?]
  | cons c cs => simp [natOfDigits?, digitsFrom_eq_some_iff]

theorem not_isDecimal_cons {c : Char} (hc : c.isDigit = false) : ¬ IsDecimal (c :: cs) n := by
  rintro ⟨-, hall, -⟩
  have hdigit := hall c List.mem_cons_self
  rw [hc] at hdigit
  cases hdigit

theorem isInteger_minus {z : Int} :
    IsInteger ('-' :: cs) z ↔ ∃ n : Nat, IsDecimal cs n ∧ -(n : Int) = z := by
  constructor
  · rintro (h | h | h)
    · exact absurd h (not_isDecimal_cons (by decide))
    · exact ⟨_, h, rfl⟩
  · rintro ⟨n, h, rfl⟩
    exact .minus h

theorem isInteger_plus {z : Int} :
    IsInteger ('+' :: cs) z ↔ ∃ n : Nat, IsDecimal cs n ∧ (n : Int) = z := by
  constructor
  · rintro (h | h | h)
    · exact absurd h (not_isDecimal_cons (by decide))
    · exact ⟨_, h, rfl⟩
  · rintro ⟨n, h, rfl⟩
    exact .plus h

theorem isInteger_plain {z : Int} (hm : ∀ ds, cs ≠ '-' :: ds) (hp : ∀ ds, cs ≠ '+' :: ds) :
    IsInteger cs z ↔ ∃ n : Nat, IsDecimal cs n ∧ (n : Int) = z := by
  constructor
  · rintro (h | h | h)
    · exact ⟨_, h, rfl⟩
    · exact absurd rfl (hp _)
    · exact absurd rfl (hm _)
  · rintro ⟨n, h, rfl⟩
    exact .plain h

theorem inRange_eq_some_iff {z : Int} {i : Int64} :
    (if Int64.minValue.toInt ≤ z ∧ z ≤ Int64.maxValue.toInt then some (Int64.ofInt z) else none) =
      some i ↔ z = i.toInt := by
  have hmin : Int64.minValue.toInt = -2 ^ 63 := by decide
  have hmax : Int64.maxValue.toInt = 2 ^ 63 - 1 := by decide
  have hlow := i.le_toInt
  have hhigh := i.toInt_lt
  rw [hmin, hmax]
  split
  · rename_i h
    have hz : (Int64.ofInt z).toInt = z := Int64.toInt_ofInt_of_le h.1 (by omega)
    rw [Option.some.injEq, ← Int64.toInt_inj, hz]
  · rename_i h
    have hne : z ≠ i.toInt := by
      rintro rfl
      exact h ⟨hlow, by omega⟩
    simp [hne]

theorem int64?_eq_some_iff {i : Int64} : int64? s = some i ↔ IsInteger s.toList i.toInt := by
  unfold int64?
  split
  · rename_i cs hs
    simp only [hs, Option.bind_eq_some_iff, natOfDigits?_eq_some_iff, inRange_eq_some_iff,
      isInteger_minus]
  · rename_i cs hs
    simp only [hs, Option.bind_eq_some_iff, natOfDigits?_eq_some_iff, inRange_eq_some_iff,
      isInteger_plus]
  · rename_i hm hp
    simp only [Option.bind_eq_some_iff, natOfDigits?_eq_some_iff, inRange_eq_some_iff,
      isInteger_plain hm hp]

/-- A numeral is read as a number below 2 ^ 64 if the number it writes is one. -/
theorem nat64?_eq_some_iff : nat64? s = some n ↔ IsNatural s.toList n ∧ n < UInt64.size := by
  have hrange : ∀ cs, ((natOfDigits? cs).bind fun n => if n < UInt64.size then some n else none) =
      some n ↔ IsDecimal cs n ∧ n < UInt64.size := by
    intro cs
    simp only [Option.bind_eq_some_iff, natOfDigits?_eq_some_iff, Option.ite_none_right_eq_some,
      Option.some.injEq]
    constructor
    · rintro ⟨_, h, hn, rfl⟩
      exact ⟨h, hn⟩
    · rintro ⟨h, hn⟩
      exact ⟨n, h, hn, rfl⟩
  unfold nat64?
  split
  · rename_i cs hs
    rw [hrange, hs]
    refine and_congr_left fun _ => ⟨.plus, ?_⟩
    rintro (h | h)
    · exact absurd h (not_isDecimal_cons (by decide))
    · exact h
  · rename_i hp
    rw [hrange]
    refine and_congr_left fun _ => ⟨.plain, fun h => ?_⟩
    generalize hs : s.toList = cs at h hp
    cases h with
    | plain h => exact h
    | plus h => exact absurd rfl (hp _)

end RelStore.Text
