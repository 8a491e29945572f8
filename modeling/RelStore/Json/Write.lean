import RelStore.Json

/-! JSON values as text, on one line or indented by two blanks. In texts only quotation
marks, backslashes and controls are escaped. -/
namespace RelStore.Json

/-- A control character has a short escape or is written by its code. -/
def escapeChar (c : Char) : List Char :=
  if c = '"' then ['\\', '"']
  else if c = '\\' then ['\\', '\\']
  else if c.toNat = 0x8 then ['\\', 'b']
  else if c = '\t' then ['\\', 't']
  else if c = '\n' then ['\\', 'n']
  else if c.toNat = 0xc then ['\\', 'f']
  else if c = '\r' then ['\\', 'r']
  else if c.toNat < 0x20 then
    ['\\', 'u', '0', '0', Nat.digitChar (c.toNat / 16), Nat.digitChar (c.toNat % 16)]
  else [c]

def quote (s : String) : List Char := '"' :: s.toList.flatMap escapeChar ++ ['"']

/-- The text of a value that has no parts. -/
def atom : Json → List Char
  | null => "null".toList
  | bool true => "true".toList
  | bool false => "false".toList
  | number n => n.display.toList
  | string s => quote s
  | _ => []

mutual
def compactChars : Json → List Char
  | array [] => ['[', ']']
  | array (x :: rest) => '[' :: compactChars x ++ compactItems rest ++ [']']
  | object [] => ['\x7b', '\x7d']
  | object ((name, x) :: rest) =>
    '\x7b' :: quote name ++ ':' :: compactChars x ++ compactMembers rest ++ ['\x7d']
  | x => atom x

def compactItems : List Json → List Char
  | [] => []
  | x :: rest => ',' :: compactChars x ++ compactItems rest

def compactMembers : List (String × Json) → List Char
  | [] => []
  | (name, x) :: rest =>
    ',' :: quote name ++ ':' :: compactChars x ++ compactMembers rest
end

def compact (x : Json) : String := String.ofList (compactChars x)

def newLine (depth : Nat) : List Char := '\n' :: List.replicate (2 * depth) ' '

mutual
/-- A value with each of its parts on a line of its own. -/
def prettyChars (depth : Nat) : Json → List Char
  | array [] => ['[', ']']
  | array (x :: rest) =>
    '[' :: newLine (depth + 1) ++ prettyChars (depth + 1) x ++
      prettyItems (depth + 1) rest ++ newLine depth ++ [']']
  | object [] => ['\x7b', '\x7d']
  | object ((name, x) :: rest) =>
    '\x7b' :: newLine (depth + 1) ++ quote name ++ ':' :: ' ' ::
      prettyChars (depth + 1) x ++ prettyMembers (depth + 1) rest ++ newLine depth ++ ['\x7d']
  | x => atom x

def prettyItems (depth : Nat) : List Json → List Char
  | [] => []
  | x :: rest => ',' :: newLine depth ++ prettyChars depth x ++ prettyItems depth rest

def prettyMembers (depth : Nat) : List (String × Json) → List Char
  | [] => []
  | (name, x) :: rest =>
    ',' :: newLine depth ++ quote name ++ ':' :: ' ' :: prettyChars depth x ++
      prettyMembers depth rest
end

def pretty (x : Json) : String := String.ofList (prettyChars 0 x)

end RelStore.Json
