/-! Finite binary floating-point numbers of 64 bits, as whole numbers times powers of
two, with the roundings of their arithmetic done exactly. -/
namespace RelStore

/-- The number `significand * 2 ^ exponent`, or its negative. -/
structure Binary64 where
  negative : Bool
  significand : Nat
  exponent : Int
deriving DecidableEq, Inhabited

namespace Binary64

def leastExponent : Int := -1074

def greatestExponent : Int := 971

def bound : Nat := 1 <<< 53

def zero (negative : Bool) : Binary64 := ⟨negative, 0, leastExponent⟩

def isZero (x : Binary64) : Bool := x.significand == 0

/-- The quotient of two numbers to the nearest whole, a half to the even neighbour. -/
def roundDiv (num den : Nat) : Nat :=
  let q := num / den
  let r := num % den
  if den < 2 * r ∨ (den = 2 * r ∧ q % 2 = 1) then q + 1 else q

def scaled (num den : Nat) (k : Int) : Nat × Nat :=
  (num <<< (-k).toNat, den <<< k.toNat)

/-- The number nearest to `num / den`, a half to the even significand; none if that
is beyond the largest number. -/
def nearest (negative : Bool) (num den : Nat) : Option Binary64 :=
  if num = 0 then some (zero negative)
  else
    let low := max leastExponent ((num.log2 : Int) - den.log2 - 53)
    let (n, d) := scaled num den low
    let k := if bound ≤ n / d then low + 1 else low
    let (n, d) := scaled num den k
    let m := roundDiv n d
    let (m, k) := if m = bound then (bound / 2, k + 1) else (m, k)
    if greatestExponent < k then none else some ⟨negative, m, k⟩

/-- Numerator and denominator of a number without its sign. -/
def fraction (x : Binary64) : Nat × Nat :=
  (x.significand <<< x.exponent.toNat, 1 <<< (-x.exponent).toNat)

def ofNat? (n : Nat) : Option Binary64 := nearest false n 1

def mul? (x y : Binary64) : Option Binary64 :=
  let (a, b) := x.fraction
  let (c, d) := y.fraction
  nearest (x.negative != y.negative) (a * c) (b * d)

def div? (x y : Binary64) : Option Binary64 :=
  let (a, b) := x.fraction
  let (c, d) := y.fraction
  nearest (x.negative != y.negative) (a * d) (b * c)

def tenTo? (k : Nat) : Option Binary64 := nearest false (Nat.pow 10 k) 1

def toInt? (x : Binary64) : Option Int :=
  let (num, den) := x.fraction
  if num % den = 0 then
    some (if x.negative then -(num / den : Nat) else (num / den : Nat))
  else none

end Binary64
end RelStore
