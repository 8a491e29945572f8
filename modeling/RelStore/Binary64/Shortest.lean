import RelStore.Binary64

/-! Floating-point numbers as the shortest decimals that read back. Among the decimals
of one length that do, the nearest is taken, and of two equally near the even one. -/
namespace RelStore.Binary64

structure Decimal where
  digits : Nat
  power : Int
deriving DecidableEq

def commonScale (g k : Int) : Nat × Nat :=
  (Nat.pow 10 g.toNat <<< (-k).toNat, Nat.pow 10 (-g).toNat <<< k.toNat)

def decade (m : Nat) (e : Int) : Int :=
  let reaches (p : Int) : Bool :=
    let (a, b) := commonScale p e
    a ≤ m * b
  let guess := Int.fdiv (((m.log2 : Int) + e) * 30103) 100000
  if reaches (guess + 1) then guess + 1
  else if reaches guess then guess
  else guess - 1

/-- The decimal with the given number of digits that reads back as `m * 2 ^ e`: one of
the two neighbours on the grid of such decimals. -/
def atLength? (m : Nat) (e : Int) (length : Nat) : Option Decimal :=
  let g := decade m e - length + 1
  let (a, b) := commonScale g (e - 2)
  let below := if m = bound / 2 ∧ leastExponent < e then 1 else 2
  let readsBack (c : Nat) : Bool :=
    if m % 2 = 0 then (4 * m - below) * b ≤ c * a && c * a ≤ (4 * m + 2) * b
    else (4 * m - below) * b < c * a && c * a < (4 * m + 2) * b
  let c := 4 * m * b / a
  match readsBack c, readsBack (c + 1) with
  | true, true =>
    let down := 4 * m * b - c * a
    let up := (c + 1) * a - 4 * m * b
    if down < up ∨ (down = up ∧ c % 2 = 0) then some ⟨c, g⟩ else some ⟨c + 1, g⟩
  | true, false => some ⟨c, g⟩
  | false, true => some ⟨c + 1, g⟩
  | false, false => none

def shortestFrom (m : Nat) (e : Int) (length : Nat) : Nat → Decimal
  | 0 => ⟨m, 0⟩
  | fuel + 1 =>
    match atLength? m e length with
    | some d => d
    | none => shortestFrom m e (length + 1) fuel

def trim : Nat → Decimal → Decimal
  | 0, d => d
  | fuel + 1, d => if d.digits % 10 = 0 then trim fuel ⟨d.digits / 10, d.power + 1⟩ else d

def shortest (x : Binary64) : Decimal :=
  trim 20 (shortestFrom x.significand x.exponent 1 17)

/-- Numbers from `10 ^ leastPositional` to below `10 ^ limitPositional` are written
without a power of ten. -/
structure Layout where
  leastPositional : Int
  limitPositional : Int

/-- Digits around a point, or one digit before the point and a signed power of ten. -/
def display (layout : Layout) (x : Binary64) : String :=
  let sign := if x.negative then "-" else ""
  if x.isZero then sign ++ "0.0"
  else
    let d := x.shortest
    let ds := Nat.toDigits 10 d.digits
    let top : Int := ds.length + d.power - 1
    let body : List Char :=
      if layout.leastPositional ≤ top ∧ top < layout.limitPositional then
        if top < 0 then ['0', '.'] ++ List.replicate (-top - 1).toNat '0' ++ ds
        else if 0 ≤ d.power then ds ++ List.replicate d.power.toNat '0' ++ ['.', '0']
        else ds.take (top.toNat + 1) ++ '.' :: ds.drop (top.toNat + 1)
      else
        ds.take 1 ++ (if ds.length = 1 then [] else '.' :: ds.drop 1) ++
          ['e', if top < 0 then '-' else '+'] ++ Nat.toDigits 10 top.natAbs
    sign ++ String.ofList body

end RelStore.Binary64
