import RelStore.Binary64.Shortest
import RelStore.Text.Order

/-! JSON values. A reader passes over what it does not use without asking what it means;
so there is also a value that is well written and yet means nothing. -/
namespace RelStore

namespace Json

/-- Whole numbers of 64 bits are kept as they are, all others are rounded. -/
inductive Number where
  | natural (n : Nat)
  /-- the negative of a positive number -/
  | negative (n : Nat)
  | real (x : Binary64)
deriving DecidableEq, Inhabited

def Number.layout : Binary64.Layout := ⟨-5, 16⟩

def Number.display : Number → String
  | natural n => toString n
  | negative n => "-" ++ toString n
  | real x => x.display layout

def Number.ofInt (n : Int) : Number :=
  if n < 0 then negative n.natAbs else natural n.natAbs

end Json

inductive Json where
  | null
  | bool (b : Bool)
  | number (n : Json.Number)
  | string (s : String)
  | array (items : List Json)
  | object (members : List (String × Json))
  /-- a number beyond all bounds, a text that is not Unicode, or an object with such a name -/
  | unreadable
deriving Inhabited

namespace Json

mutual
/-- How deep arrays and objects are nested; none if some part is unreadable. -/
def depth? : Json → Option Nat
  | unreadable => none
  | array items => (itemsDepth? items).map (· + 1)
  | object members => (membersDepth? members).map (· + 1)
  | _ => some 0

def itemsDepth? : List Json → Option Nat
  | [] => some 0
  | x :: rest =>
    match depth? x, itemsDepth? rest with
    | some n, some m => some (max n m)
    | _, _ => none

def membersDepth? : List (String × Json) → Option Nat
  | [] => some 0
  | (_, x) :: rest =>
    match depth? x, membersDepth? rest with
    | some n, some m => some (max n m)
    | _, _ => none
end

/-- Puts a member at its place by name, instead of one with the same name. -/
def putMember (name : String) (x : Json) : List (String × Json) → List (String × Json)
  | [] => [(name, x)]
  | (n, y) :: rest =>
    if Text.before name n then (name, x) :: (n, y) :: rest
    else if name = n then (name, x) :: rest
    else (n, y) :: putMember name x rest

mutual
def sorted : Json → Json
  | array items => .array (sortedItems items)
  | object members => .object (sortedMembers members [])
  | x => x

def sortedItems : List Json → List Json
  | [] => []
  | x :: rest => sorted x :: sortedItems rest

def sortedMembers : List (String × Json) → List (String × Json) → List (String × Json)
  | [], done => done
  | (name, x) :: rest, done => sortedMembers rest (putMember name (sorted x) done)
end

end Json
end RelStore
