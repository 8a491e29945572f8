import RelStore.Condition
import RelStore.Schema

/-! The columns of a stream of rows, each with the table it comes from, and what names
and conditions mean for such rows. -/
namespace RelStore

/-- A column of a stream of rows. -/
structure Attribute where
  table : String
  name : String
  type : ColumnType
deriving DecidableEq, Inhabited

def Attribute.qualified (a : Attribute) : String := a.table ++ "." ++ a.name

def splitName? (name : String) : Option (String × String) :=
  let cs := name.toList
  match cs.dropWhile (· != '.') with
  | [] => none
  | _ :: rest => some (String.ofList (cs.takeWhile (· != '.')), String.ofList rest)

def Attribute.answersTo (a : Attribute) (name : String) : Bool :=
  match splitName? name with
  | some (table, column) => a.table == table && a.name == column
  | none => a.name == name

abbrev Heading := List Attribute

namespace Heading

def ofSchema (s : Schema) : Heading := s.columns.map fun c => ⟨s.name, c.name, c.type⟩

def isJoined : Heading → Bool
  | [] => false
  | a :: rest => rest.any fun b => b.table != a.table

/-- The names shown above the columns: with the table if there are several tables. -/
def header (h : Heading) : List String :=
  if isJoined h then h.map Attribute.qualified else h.map (·.name)

def positionsFrom (i : Nat) (name : String) : Heading → List Nat
  | [] => []
  | a :: rest =>
    if a.answersTo name then i :: positionsFrom (i + 1) name rest
    else positionsFrom (i + 1) name rest

def positions (h : Heading) (name : String) : List Nat := positionsFrom 0 name h

def resolve (h : Heading) (name : String) : Except Error Nat :=
  match positions h name with
  | [] => .error (.noColumn name)
  | [i] => .ok i
  | _ => .error (.ambiguousColumn name)

/-- The position of the one column that a name means, if it means one. -/
def resolve? (h : Heading) (name : String) : Option Nat :=
  match positions h name with
  | [i] => some i
  | _ => none

def isAmbiguous (h : Heading) (name : String) : Bool := 1 < (positions h name).length

theorem resolve_eq_ok_iff {h : Heading} {name : String} {i : Nat} :
    resolve h name = .ok i ↔ resolve? h name = some i := by
  unfold resolve resolve?
  rcases positions h name with _ | ⟨j, _ | ⟨k, rest⟩⟩ <;> simp

end Heading

/-- Whether a row satisfies a condition. An equation is false if its column is none or
several, if the row ends before it, and if the cell has another type. -/
def Condition.holds (h : Heading) (row : Row) : Condition → Bool
  | .equals column value =>
    match Heading.resolve? h column with
    | some i =>
      match row[i]? with
      | some cell => cell.sqlEq value
      | none => false
    | none => false
  | .and l r => l.holds h row && r.holds h row
  | .or l r => l.holds h row || r.holds h row

end RelStore
