/-! Numbers written in decimal digits. -/
namespace RelStore.Text

/-- The number that digits write, continuing from `n`; other characters write none. -/
def digitsFrom (n : Nat) : List Char → Option Nat
  | [] => some n
  | c :: cs => if c.isDigit then digitsFrom (10 * n + (c.toNat - 48)) cs else none

def natOfDigits? : List Char → Option Nat
  | [] => none
  | cs => digitsFrom 0 cs

def int64? (s : String) : Option Int64 :=
  let inRange (z : Int) : Option Int64 :=
    if Int64.minValue.toInt ≤ z ∧ z ≤ Int64.maxValue.toInt then some (Int64.ofInt z) else none
  match s.toList with
  | '-' :: cs => (natOfDigits? cs).bind fun n => inRange (-(n : Int))
  | '+' :: cs => (natOfDigits? cs).bind fun n => inRange n
  | cs => (natOfDigits? cs).bind fun n => inRange n

def nat64? (s : String) : Option Nat :=
  let inRange (n : Nat) : Option Nat := if n < UInt64.size then some n else none
  match s.toList with
  | '+' :: cs => (natOfDigits? cs).bind inRange
  | cs => (natOfDigits? cs).bind inRange

end RelStore.Text
