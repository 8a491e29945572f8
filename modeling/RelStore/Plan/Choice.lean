import RelStore.Plan
import RelStore.Statement

/-! The choice of a plan for a query whose tables are at hand. An equation on an indexed
column is answered by the index. The condition of a join is applied to the left rows
alone if it speaks of no other column. -/
namespace RelStore
namespace Plan

/-- A way to the rows of one table. -/
inductive Access where
  | whole
  | tested (condition : Condition)
  | indexed (column : String) (value : Value)
deriving DecidableEq

namespace Access

def plan (t : Table) : Access → Plan
  | whole => .scan t none
  | tested c => .scan t (some ⟨fun row => c.holds (.ofSchema t.schema) row, none⟩)
  | indexed column value => .indexScan t column value

def events (t : Table) : Access → List Event
  | whole => []
  | tested c => [.fullScan t.name c]
  | indexed column _ => [.indexScan t.name column]

end Access

def chooseAccess (t : Table) : Option Condition → Except Error Access
  | none => .ok .whole
  | some c =>
    match c.equation? with
    | none => .ok (.tested c)
    | some (name, value) =>
      match Heading.resolve? (.ofSchema t.schema) name with
      | none => .ok (.tested c)
      | some i => do
        let column ← t.schema.columnAt i
        pure (if column.isIndexed then .indexed column.name value else .tested c)

inductive Side where
  | left
  | right
deriving DecidableEq

def sideOf? (left right name : String) : Option Side :=
  match splitName? name with
  | none => none
  | some (table, _) =>
    match table == left, table == right with
    | true, false => some .left
    | false, true => some .right
    | _, _ => none

/-- The operands of a join in the order of its tables. A qualified operand goes to the
side it names, and the other one opposite; without a qualified one the order stays. -/
def operands (left right : String) (j : Join) : Except Error (String × String) :=
  match sideOf? left right j.left, sideOf? left right j.right with
  | some .left, some .left => .error (.oneSidedJoin j.left j.right)
  | some .right, some .right => .error (.oneSidedJoin j.left j.right)
  | some .right, _ => .ok (j.right, j.left)
  | none, some .left => .ok (j.right, j.left)
  | _, _ => .ok (j.left, j.right)

def joinPosition (t : Table) (column : String) : Except Error Nat :=
  match Heading.resolve? (.ofSchema t.schema) column with
  | some i => .ok i
  | none => .error (.noJoinColumn column t.name)

/-- Whether all columns are among the first `n`. None may mean several columns. -/
def leftOnly (joined : Heading) (n : Nat) : List String → Except Error Bool
  | [] => .ok true
  | name :: rest =>
    if Heading.isAmbiguous joined name then .error (.ambiguousName name)
    else do
      let others ← leftOnly joined n rest
      match Heading.resolve? joined name with
      | some i => pure (decide (i < n) && others)
      | none => pure false

def chooseJoin (left right : Table) (j : Join) (condition : Option Condition) :
    Except Error (Plan × Access) := do
  let (leftColumn, rightColumn) ← operands left.name right.name j
  let i ← joinPosition left leftColumn
  let k ← joinPosition right rightColumn
  let leftHeading := Heading.ofSchema left.schema
  let joined := leftHeading ++ Heading.ofSchema right.schema
  match condition with
  | none =>
    pure (.join (Access.whole.plan left) (.scan right none) i k, .whole)
  | some c =>
    if ← leftOnly joined leftHeading.length c.columns then
      let access ← chooseAccess left (some c)
      pure (.join (access.plan left) (.scan right none) i k, access)
    else
      pure (.filter c (.join (Access.whole.plan left) (.scan right none) i k), .whole)

def chooseRows (q : Query) (left : Table) (right : Option (Join × Table)) :
    Except Error (Plan × Access) :=
  match right with
  | some (j, right) => chooseJoin left right j q.condition
  | none => do
    let access ← chooseAccess left q.condition
    pure (access.plan left, access)

def choose (q : Query) (left : Table) (right : Option (Join × Table)) :
    Except Error (Plan × List Event) := do
  let (rows, access) ← chooseRows q left right
  let plan :=
    match q.limit with
    | some n => Plan.limit n rows
    | none => rows
  pure (plan, access.events left ++ [.planned plan.describe])

end Plan
end RelStore
