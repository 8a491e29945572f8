import RelStore.Heading
import RelStore.Table
import RelStore.Trace

/-! Plans: how the rows of a query come about. Each node makes all its rows before the
node above it begins. -/
namespace RelStore

/-- A test for the rows of a scan. With a label, each use of the test is marked. -/
structure RowTest where
  keep : Row → Bool
  label : Option Nat

inductive Plan where
  /-- the rows of a table that pass a test -/
  | scan (table : Table) (test : Option RowTest)
  /-- the row with a value in an indexed column -/
  | indexScan (table : Table) (column : String) (value : Value)
  /-- left and right rows with equal cells at two positions, side by side -/
  | join (left right : Plan) (leftPosition rightPosition : Nat)
  | filter (condition : Condition) (input : Plan)
  /-- the first rows -/
  | limit (count : Nat) (input : Plan)
  /-- the rows of the input, and a mark when they are made -/
  | marked (label : Nat) (input : Plan)

namespace Plan

def heading : Plan → Heading
  | scan t _ => .ofSchema t.schema
  | indexScan t _ _ => .ofSchema t.schema
  | join l r _ _ => l.heading ++ r.heading
  | filter _ p => p.heading
  | limit _ p => p.heading
  | marked _ p => p.heading

def describe : Plan → String
  | scan t none => "Scan(" ++ t.name ++ ")"
  | scan t (some _) => "Scan(" ++ t.name ++ ", filtered)"
  | indexScan t column value =>
    "IndexScan(" ++ t.name ++ "." ++ column ++ " = " ++ value.display ++ ")"
  | join l r _ _ => "Join(" ++ l.describe ++ ", " ++ r.describe ++ ")"
  | filter c p => "Filter(" ++ c.display ++ ", " ++ p.describe ++ ")"
  | limit n p => "Limit(" ++ toString n ++ ", " ++ p.describe ++ ")"
  | marked _ p => p.describe

def applyTest (test : Option RowTest) (row : Row) : Watched Bool :=
  match test with
  | none => pure true
  | some t => do
    if let some label := t.label then Watched.pass label
    pure (t.keep row)

def scanRows (signal : Signal) (test : Option RowTest) : List Row → Watched (List Row)
  | [] => pure []
  | row :: rest => do
    Watched.poll signal
    let kept ← applyTest test row
    let out ← scanRows signal test rest
    pure (if kept then row :: out else out)

/-- The right rows whose cell equals that of a left row, each behind the left row. -/
def joinRow (i j : Nat) (right : List Row) (row : Row) : List Row :=
  match row[i]? with
  | none => []
  | some v =>
    (right.filter fun r =>
      match r[j]? with
      | some w => v.sqlEq w
      | none => false).map (row ++ ·)

def joinRows (signal : Signal) (i j : Nat) (right : List Row) :
    List Row → Watched (List Row)
  | [] => pure []
  | row :: rest => do
    Watched.poll signal
    let out ← joinRows signal i j right rest
    pure (joinRow i j right row ++ out)

/-- The rows of a plan. -/
def run (signal : Signal) : Plan → Watched (List Row)
  | scan t test => scanRows signal test t.allRows
  | indexScan t column value => do
    Watched.poll signal
    let found ← (t.find column value : Except Error (Option Row))
    pure found.toList
  | join l r i j => do
    let left ← l.run signal
    let right ← r.run signal
    joinRows signal i j right left
  | filter c p => do
    let rows ← p.run signal
    scanRows signal (some ⟨fun row => c.holds p.heading row, none⟩) rows
  | limit n p => do
    let rows ← p.run signal
    pure (rows.take n)
  | marked label p => do
    let rows ← p.run signal
    Watched.pass label
    pure rows

end Plan
end RelStore
