import RelStore.Json.Lex

/-! From the tokens of a JSON text to its value. -/
namespace RelStore.Json

def ofMembers (members : List (Option String × Json)) : Json :=
  if members.all (·.1.isSome) then .object (members.map fun m => (m.1.getD "", m.2))
  else .unreadable

mutual
/-- A value and the tokens behind it. -/
def readValue? : Nat → List Token → Option (Json × List Token)
  | 0, _ => none
  | fuel + 1, ts =>
    match ts with
    | .null :: rest => some (.null, rest)
    | .bool b :: rest => some (.bool b, rest)
    | .number (some n) :: rest => some (.number n, rest)
    | .number none :: rest => some (.unreadable, rest)
    | .text (some s) :: rest => some (.string s, rest)
    | .text none :: rest => some (.unreadable, rest)
    | .leftBracket :: .rightBracket :: rest => some (.array [], rest)
    | .leftBracket :: rest => do
      let (x, rest) ← readValue? fuel rest
      let (xs, rest) ← readItems? fuel rest
      pure (.array (x :: xs), rest)
    | .leftBrace :: .rightBrace :: rest => some (.object [], rest)
    | .leftBrace :: .text name :: .colon :: rest => do
      let (x, rest) ← readValue? fuel rest
      let (xs, rest) ← readMembers? fuel rest
      pure (ofMembers ((name, x) :: xs), rest)
    | _ => none

def readItems? : Nat → List Token → Option (List Json × List Token)
  | 0, _ => none
  | fuel + 1, ts =>
    match ts with
    | .rightBracket :: rest => some ([], rest)
    | .comma :: rest => do
      let (x, rest) ← readValue? fuel rest
      let (xs, rest) ← readItems? fuel rest
      pure (x :: xs, rest)
    | _ => none

/-- The further members of an object. -/
def readMembers? : Nat → List Token → Option (List (Option String × Json) × List Token)
  | 0, _ => none
  | fuel + 1, ts =>
    match ts with
    | .rightBrace :: rest => some ([], rest)
    | .comma :: .text name :: .colon :: rest => do
      let (x, rest) ← readValue? fuel rest
      let (xs, rest) ← readMembers? fuel rest
      pure ((name, x) :: xs, rest)
    | _ => none
end

def ofTokens? (ts : List Token) : Option Json := do
  let (x, rest) ← readValue? (ts.length + 1) ts
  if rest.isEmpty then some x else none

def read? (bytes : List UInt8) : Option Json := do
  let ts ← lex bytes
  ofTokens? ts

end RelStore.Json
