import RelStore.Json

/-! What a JSON number means. Whole numbers of 64 bits are exact. For all others up to
64 bits of leading digits are taken as a whole number, which is rounded and then scaled
by a rounded power of ten. -/
namespace RelStore.Json

/-- A number as it is written: digits before and behind the point, and an exponent. -/
structure Numeral where
  negative : Bool
  whole : List Nat
  fraction : List Nat
  /-- whether the exponent has a minus sign, and its digits -/
  exponent : Option (Bool × List Nat)
deriving DecidableEq

namespace Numeral

def mostNatural : Nat := UInt64.size - 1

def mostExponent : Nat := UInt32.size / 2 - 1

def takeWhole (n dropped : Nat) : List Nat → Nat × Nat
  | [] => (n, dropped)
  | d :: rest =>
    if dropped = 0 ∧ 10 * n + d ≤ mostNatural then takeWhole (10 * n + d) 0 rest
    else takeWhole n (dropped + 1) rest

def takeFraction (n taken : Nat) : List Nat → Nat × Nat
  | [] => (n, taken)
  | d :: rest =>
    if 10 * n + d ≤ mostNatural then takeFraction (10 * n + d) (taken + 1) rest
    else (n, taken)

def scale (x : Binary64) (e : Int) : Nat → Option Binary64
  | 0 => some x
  | fuel + 1 =>
    if e.natAbs ≤ 308 then
      (Binary64.tenTo? e.natAbs).bind fun t => if 0 ≤ e then x.mul? t else x.div? t
    else if x.isZero then some x
    else if 0 ≤ e then none
    else (Binary64.tenTo? 308).bind fun t =>
      (x.div? t).bind fun y => scale y (e + 308) fuel

def rounded (negative : Bool) (n : Nat) (e : Int) : Option Number :=
  (Binary64.ofNat? n).bind fun x =>
    (scale x e 4).map fun y => .real { y with negative }

/-- The number a numeral means; none if it is beyond all bounds. -/
def value? (t : Numeral) : Option Number :=
  let (n, dropped) := takeWhole 0 0 t.whole
  let (m, taken) := takeFraction n 0 t.fraction
  let e : Int := (dropped : Int) - (taken : Int)
  match t.exponent with
  | some (minus, digits) =>
    let k : Nat := digits.foldl (fun k d => 10 * k + d) 0
    if k ≤ mostExponent then
      rounded t.negative m (if minus then e - (k : Int) else e + (k : Int))
    else if m ≠ 0 ∧ !minus then none
    else some (.real (.zero t.negative))
  | none =>
    if t.fraction.isEmpty ∧ dropped = 0 then
      if !t.negative then some (.natural n)
      else if n = 0 then some (.real (.zero true))
      else if n ≤ UInt64.size / 2 then some (.negative n)
      else rounded true n 0
    else rounded t.negative m e

end Numeral
end RelStore.Json
