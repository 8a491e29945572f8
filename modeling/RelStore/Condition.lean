import RelStore.Value

/-! Conditions on rows: equations between a column and a value, joined by AND and OR. -/
namespace RelStore

inductive Condition where
  | equals (column : String) (value : Value)
  | and (left right : Condition)
  | or (left right : Condition)
deriving DecidableEq, Inhabited

namespace Condition

def equation? : Condition → Option (String × Value)
  | equals column value => some (column, value)
  | _ => none

def columns : Condition → List String
  | equals column _ => [column]
  | and l r => l.columns ++ r.columns
  | or l r => l.columns ++ r.columns

def display : Condition → String
  | equals column (.int n) => column ++ " = " ++ toString n.toInt
  | equals column (.text s) => column ++ " = '" ++ s ++ "'"
  | and l r => "(" ++ l.display ++ " AND " ++ r.display ++ ")"
  | or l r => "(" ++ l.display ++ " OR " ++ r.display ++ ")"

/-- What stands between two equations. -/
inductive Connective where
  | and
  | or
deriving DecidableEq, Inhabited

def joinRun : Option Condition → Condition → Condition
  | none, run => run
  | some done, run => .or done run

/-- The condition of a chain without brackets. AND binds closer than OR, so the chain
is a series of runs of equations joined by AND; both group to the left. -/
def ofChain (done : Option Condition) (run : Condition) :
    List (Connective × Condition) → Condition
  | [] => joinRun done run
  | (.and, e) :: rest => ofChain done (.and run e) rest
  | (.or, e) :: rest => ofChain (some (joinRun done run)) e rest

end Condition
end RelStore
