import RelStore.Condition
import RelStore.Error

/-! What a run leaves behind: the events it reports, and the points at which it asks
whether to go on. A signal answers such a question from the trace so far. -/
namespace RelStore

inductive Level where
  | debug
  | info
  | warn
deriving DecidableEq

def Level.name : Level → String
  | debug => "DEBUG"
  | info => "INFO"
  | warn => "WARN"

/-- The changes that go row by row. -/
inductive Change where
  | update
  | delete
deriving DecidableEq

def Change.name : Change → String
  | update => "UPDATE"
  | delete => "DELETE"

/-- What a run reports. -/
inductive Event where
  | opening (directory durability : String)
  | created (table : String) (columns : Nat)
  | saved (table : String) (rows : Nat) (path : String)
  | loaded (table : String) (rows : Nat)
  | indexScan (table column : String)
  | fullScan (table : String) (condition : Condition)
  | planned (plan : String)
  /-- a row that a change met and could not take -/
  | skipped (change : Change) (table : String) (key : Value) (error : Error)
deriving DecidableEq

namespace Event

def level : Event → Level
  | opening .. | created .. | loaded .. => .info
  | saved .. | indexScan .. | fullScan .. | planned .. => .debug
  | skipped .. => .warn

def message : Event → String
  | opening .. => "opening engine"
  | created .. => "table created"
  | saved .. => "table saved"
  | loaded .. => "table loaded from disk"
  | indexScan .. => "using index scan"
  | fullScan .. => "using full scan"
  | planned .. => "select planned"
  | skipped change .. => "row skipped by " ++ change.name

/-- A detail of an event. -/
inductive Field where
  | text (s : String)
  | count (n : Nat)
deriving DecidableEq

/-- The details of an event, by name. -/
def fields : Event → List (String × Field)
  | opening directory durability =>
    [("data_dir", .text directory), ("durability", .text durability)]
  | created table columns => [("table", .text table), ("columns", .count columns)]
  | saved table rows path =>
    [("table", .text table), ("rows", .count rows), ("path", .text path)]
  | loaded table rows => [("table", .text table), ("rows", .count rows)]
  | indexScan table column => [("table", .text table), ("column", .text column)]
  | fullScan table condition =>
    [("table", .text table), ("predicate", .text condition.display)]
  | planned plan => [("plan", .text plan)]
  | skipped _ table key error =>
    [("table", .text table), ("pk", .text key.display), ("error", .text error.message)]

end Event

/-- A step of a run that can be told from outside. -/
inductive Step where
  /-- the run asked whether to go on, and went on -/
  | poll
  | event (e : Event)
  /-- the run passed a point that a plan marks -/
  | mark (label : Nat)
deriving DecidableEq

abbrev Trace := List Step

def Trace.events (t : Trace) : List Event :=
  t.reverse.filterMap fun s =>
    match s with
    | .event e => some e
    | _ => none

abbrev Signal := Trace → Bool

namespace Signal

def never : Signal := fun _ => false

def given : Signal := fun _ => true

def afterPolls (n : Nat) : Signal := fun t => n ≤ t.countP (· == .poll)

/-- Given with the `n`th event that has a message. -/
def onEvent (message : String) (n : Nat) : Signal := fun t =>
  n ≤ t.countP fun s =>
    match s with
    | .event e => e.message == message
    | _ => false

def onMark (label n : Nat) : Signal := fun t => n ≤ t.countP (· == .mark label)

def or (s s' : Signal) : Signal := fun t => s t || s' t

end Signal

abbrev Watched (α : Type) := ExceptT Error (StateM Trace) α

namespace Watched

def poll (signal : Signal) : Watched Unit := do
  if signal (← get) then throw .cancelled
  modify (.poll :: ·)

def report (e : Event) : Watched Unit := modify (.event e :: ·)

def pass (label : Nat) : Watched Unit := modify (.mark label :: ·)

end Watched
end RelStore
