import RelStore.Condition
import RelStore.Schema

/-! Statements: queries, changes of rows, and the making of tables. -/
namespace RelStore

inductive Selection where
  | all
  | named (names : List String)
deriving DecidableEq, Inhabited

/-- `JOIN table ON left = right` -/
structure Join where
  table : String
  left : String
  right : String
deriving DecidableEq, Inhabited

structure Query where
  selection : Selection
  table : String
  join : Option Join
  condition : Option Condition
  limit : Option Nat
deriving DecidableEq, Inhabited

inductive Statement where
  | select (q : Query)
  | insert (table : String) (row : Row)
  | update (table : String) (assignments : List (String × Value)) (condition : Condition)
  | delete (table : String) (condition : Condition)
  | create (table : String) (columns : List Column) (ifAbsent : Bool)
deriving DecidableEq, Inhabited

end RelStore
