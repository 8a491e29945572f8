import RelStore.Json.Number

/-! From the bytes of a JSON text to its tokens. Texts and numbers are tokens also when
they mean nothing: a text that is not Unicode, a number beyond all bounds. -/
namespace RelStore.Json

inductive Token where
  | leftBracket
  | rightBracket
  | leftBrace
  | rightBrace
  | comma
  | colon
  | null
  | bool (b : Bool)
  | number (n : Option Number)
  | text (s : Option String)
deriving DecidableEq, Inhabited

def isBlank (b : UInt8) : Bool := b == 0x20 || b == 0x0a || b == 0x09 || b == 0x0d

def isDigit (b : UInt8) : Bool := 0x30 ≤ b && b ≤ 0x39

def digit (b : UInt8) : Nat := b.toNat - 0x30

def hexDigit? (b : UInt8) : Option Nat :=
  if 0x30 ≤ b && b ≤ 0x39 then some (b.toNat - 0x30)
  else if 0x41 ≤ b && b ≤ 0x46 then some (b.toNat - 0x37)
  else if 0x61 ≤ b && b ≤ 0x66 then some (b.toNat - 0x57)
  else none

def hex4? (a b c d : UInt8) : Option Nat := do
  let a ← hexDigit? a
  let b ← hexDigit? b
  let c ← hexDigit? c
  let d ← hexDigit? d
  pure (((a * 16 + b) * 16 + c) * 16 + d)

def shortEscape? (b : UInt8) : Option UInt8 :=
  if b == 0x22 || b == 0x5c || b == 0x2f then some b
  else if b == 0x62 then some 0x08
  else if b == 0x66 then some 0x0c
  else if b == 0x6e then some 0x0a
  else if b == 0x72 then some 0x0d
  else if b == 0x74 then some 0x09
  else none

def isHighSurrogate (n : Nat) : Bool := 0xd800 ≤ n && n < 0xdc00

def isLowSurrogate (n : Nat) : Bool := 0xdc00 ≤ n && n < 0xe000

abbrev TextBytes := Option (List UInt8)

def prepend (bytes : List UInt8) (r : TextBytes × List UInt8) : TextBytes × List UInt8 :=
  (r.1.map (bytes ++ ·), r.2)

def spoil (r : TextBytes × List UInt8) : TextBytes × List UInt8 := (none, r.2)

/-- Bytes in front of what a text continues with, when a high surrogate may stand
before them. -/
def extend (high : Option Nat) (bytes : List UInt8) (r : TextBytes × List UInt8) :
    TextBytes × List UInt8 :=
  if high.isSome then spoil r else prepend bytes r

def pairChar (high low : Nat) : Char :=
  Char.ofNat (0x10000 + (high - 0xd800) * 0x400 + (low - 0xdc00))

/-- A text up to its closing quotation mark, and what follows it; `high` is a high
surrogate just before. There has to be a closing mark, controls have to be escaped, and
a backslash begins one of the known escapes. -/
def textBody? (high : Option Nat) : List UInt8 → Option (TextBytes × List UInt8)
  | [] => none
  | b :: rest =>
    if b == 0x22 then some (extend high [] (some [], rest))
    else if b == 0x5c then
      match rest with
      | [] => none
      | e :: rest =>
        if e == 0x75 then
          match rest with
          | h₁ :: h₂ :: h₃ :: h₄ :: rest =>
            match hex4? h₁ h₂ h₃ h₄ with
            | none => none
            | some n =>
              if isHighSurrogate n then (textBody? (some n) rest).map (extend high [])
              else if isLowSurrogate n then
                match high with
                | some h =>
                  (textBody? none rest).map (prepend (String.utf8EncodeChar (pairChar h n)))
                | none => (textBody? none rest).map spoil
              else
                (textBody? none rest).map
                  (extend high (String.utf8EncodeChar (Char.ofNat n)))
          | _ => none
        else
          match shortEscape? e with
          | some c => (textBody? none rest).map (extend high [c])
          | none => none
    else if b < 0x20 then none
    else (textBody? none rest).map (extend high [b])

def ofBytes? (bytes : TextBytes) : Option String :=
  bytes.bind fun bytes => String.fromUTF8? bytes.toByteArray

/-- An exponent, if one comes first: `e`, perhaps a sign, and digits. -/
def exponent? (bytes : List UInt8) : Option (Option (Bool × List Nat) × List UInt8) :=
  match bytes with
  | b :: rest =>
    if b == 0x65 || b == 0x45 then
      let (minus, rest) : Bool × List UInt8 :=
        match rest with
        | s :: tail => if s == 0x2d then (true, tail) else if s == 0x2b then (false, tail)
          else (false, rest)
        | [] => (false, rest)
      let digits := rest.takeWhile isDigit
      if digits.isEmpty then none
      else some (some (minus, digits.map digit), rest.dropWhile isDigit)
    else some (none, bytes)
  | [] => some (none, [])

/-- The digits behind a point, if a point comes first. -/
def fraction? (bytes : List UInt8) : Option (List Nat × List UInt8) :=
  match bytes with
  | b :: rest =>
    if b == 0x2e then
      let digits := rest.takeWhile isDigit
      if digits.isEmpty then none else some (digits.map digit, rest.dropWhile isDigit)
    else some ([], bytes)
  | [] => some ([], [])

def numeral? (negative : Bool) (bytes : List UInt8) : Option (Numeral × List UInt8) := do
  let whole := bytes.takeWhile isDigit
  if whole.isEmpty || (whole.head? == some 0x30 && 1 < whole.length) then none
  let (fraction, rest) ← fraction? (bytes.dropWhile isDigit)
  let (exponent, rest) ← exponent? rest
  pure (⟨negative, whole.map digit, fraction, exponent⟩, rest)

def word? (w : List UInt8) (bytes : List UInt8) : Option (List UInt8) :=
  if w.isPrefixOf bytes then some (bytes.drop w.length) else none

/-- The first token and what follows it. -/
def token? (b : UInt8) (rest : List UInt8) : Option (Token × List UInt8) :=
  if b == 0x5b then some (.leftBracket, rest)
  else if b == 0x5d then some (.rightBracket, rest)
  else if b == 0x7b then some (.leftBrace, rest)
  else if b == 0x7d then some (.rightBrace, rest)
  else if b == 0x2c then some (.comma, rest)
  else if b == 0x3a then some (.colon, rest)
  else if b == 0x22 then (textBody? none rest).map fun r => (.text (ofBytes? r.1), r.2)
  else if b == 0x2d then (numeral? true rest).map fun r => (.number r.1.value?, r.2)
  else if isDigit b then
    (numeral? false (b :: rest)).map fun r => (.number r.1.value?, r.2)
  else if b == 0x6e then (word? "ull".toUTF8.toList rest).map fun r => (.null, r)
  else if b == 0x74 then (word? "rue".toUTF8.toList rest).map fun r => (.bool true, r)
  else if b == 0x66 then (word? "alse".toUTF8.toList rest).map fun r => (.bool false, r)
  else none

/-- At most `fuel` bytes of white space and tokens. -/
def lexFrom : Nat → List UInt8 → Option (List Token)
  | _, [] => some []
  | 0, _ :: _ => none
  | fuel + 1, b :: rest =>
    if isBlank b then lexFrom fuel rest
    else do
      let (t, rest) ← token? b rest
      let ts ← lexFrom fuel rest
      pure (t :: ts)

def lex (bytes : List UInt8) : Option (List Token) := lexFrom bytes.length bytes

end RelStore.Json
