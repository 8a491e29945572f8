import RelStore.Database
import RelStore.Plan.Choice
import RelStore.Statement.Parse

/-! Running statements on a database. A change that looks at every row goes through the
rows one by one; if it is stopped on the way, what it has done so far is saved. -/
namespace RelStore

/-- What a statement answers. -/
inductive Outcome where
  | selected (header : List String) (rows : List Row)
  | inserted
  | updated (count : Nat)
  | deleted (count : Nat)
  | created (table : String)
  | alreadyExists (table : String)
deriving DecidableEq

namespace Outcome

def message? : Outcome → Option String
  | selected .. => none
  | inserted => some "Insert successful"
  | updated n => some ("Updated " ++ toString n ++ " rows")
  | deleted n => some ("Deleted " ++ toString n ++ " rows")
  | created t => some ("Table " ++ t ++ " created")
  | alreadyExists t => some ("Table " ++ t ++ " already exists")

def affected : Outcome → Nat
  | inserted => 1
  | updated n | deleted n => n
  | _ => 0

def rowCount : Outcome → Nat
  | selected _ rows => rows.length
  | o => o.affected

def rows? : Outcome → Option (List String × List Row)
  | selected header rows => some (header, rows)
  | _ => none

def putValue (name : String) (v : Value) : List (String × Value) → List (String × Value)
  | [] => [(name, v)]
  | (n, w) :: rest => if n = name then (n, v) :: rest else (n, w) :: putValue name v rest

def named (header : List String) (row : Row) : List (String × Value) :=
  (header.zip row).foldl (fun m e => putValue e.1 e.2 m) []

def maps : Outcome → List (List (String × Value))
  | selected header rows => rows.map (named header)
  | _ => []

end Outcome

namespace Database

def planTable (name : String) : Action Table :=
  tryCatch (table name) fun e =>
    if e.errorClass = .tableNotFound then throw (.unknownTable name) else throw e

def plan (q : Query) : Action Plan := do
  let left ← planTable q.table
  let right ← match q.join with
    | none => pure none
    | some j => do
      let t ← planTable j.table
      pure (some (j, t))
  let (plan, events) ← (Plan.choose q left right : Except Error (Plan × List Event))
  reportAll events
  pure plan

def planOf : Statement → Action Plan
  | .select q => plan q
  | _ => throw .notAQuery

def resolveAll (h : Heading) : List String → Except Error (List Nat)
  | [] => .ok []
  | name :: rest => do
    let i ← Heading.resolve h name
    let is ← resolveAll h rest
    pure (i :: is)

def project (row : Row) : List Nat → Except Error Row
  | [] => .ok []
  | i :: is => do
    let v ← Row.cell row i
    let vs ← project row is
    pure (v :: vs)

def projectAll (is : List Nat) : List Row → Except Error (List Row)
  | [] => .ok []
  | row :: rest => do
    let row ← project row is
    let rows ← projectAll is rest
    pure (row :: rows)

def select (q : Query) (signal : Signal) : Action Outcome := do
  let plan ← plan q
  let rows ← watch (plan.run signal)
  match q.selection with
  | .all => pure (.selected plan.heading.header rows)
  | .named names =>
    let is ← (resolveAll plan.heading names : Except Error (List Nat))
    let rows ← (projectAll is rows : Except Error (List Row))
    pure (.selected names rows)

def insert (name : String) (row : Row) : Action Outcome := do
  let t ← insertKept name row
  save t
  pure .inserted

/-- The positions and values of assignments, each value of its column's type. -/
def resolveAssignments (t : Table) :
    List (String × Value) → Except Error (List (Nat × Value))
  | [] => .ok []
  | (name, v) :: rest => do
    let i ← Heading.resolve (.ofSchema t.schema) name
    let c ← t.schema.columnAt i
    ensure (v.type = c.type) (.wrongType name c.type v.type)
    let rest ← resolveAssignments t rest
    pure ((i, v) :: rest)

def assign : List (Nat × Value) → Row → Except Error Row
  | [], row => .ok row
  | (i, v) :: rest, row =>
    if i < row.length then assign rest (row.set i v)
    else .error (.outOfRange i row.length)

def keyEquation? (t : Table) (c : Condition) : Option Value := do
  let (name, v) ← c.equation?
  let i ← Heading.resolve? (.ofSchema t.schema) name
  if i = t.keyPosition then some v else none

/-- The keys of the rows that satisfy a condition, with a poll before each row. -/
def matchingKeys (signal : Signal) (h : Heading) (c : Condition) :
    List (Value × Row) → Watched (List Value)
  | [] => pure []
  | (key, row) :: rest => do
    Watched.poll signal
    let keys ← matchingKeys signal h c rest
    pure (if c.holds h row then key :: keys else keys)

/-- How far a change has come. -/
structure Progress where
  table : Table
  count : Nat
  trace : Trace

def refusal (change : Change) (table : String) (key : Value) (e : Error) : Trace → Trace :=
  if change = .update ∧ e.errorClass = .rowNotFound then id
  else (.event (.skipped change table key e) :: ·)

/-- Changes the rows of some keys one by one, with a poll before each. A row that cannot
be changed is passed over. -/
def sweep (signal : Signal) (change : Change) (step : Table → Value → Except Error Table) :
    List Value → Progress → Except Error Unit × Progress
  | [], p => (.ok (), p)
  | key :: rest, p =>
    if signal p.trace then (.error .cancelled, p)
    else
      match step p.table key with
      | .ok t => sweep signal change step rest ⟨t, p.count + 1, .poll :: p.trace⟩
      | .error e =>
        if e.errorClass = .fault then (.error e, p)
        else
          sweep signal change step rest
            { p with trace := refusal change p.table.name key e (.poll :: p.trace) }

/-- Changes the rows of a table that satisfy a condition, and saves the table: always
when all rows were gone through, and else if some row was changed. -/
def changeRows (signal : Signal) (change : Change) (name : String) (t : Table)
    (c : Condition) (step : Table → Value → Except Error Table) : Action Nat := do
  let keys ← watch (matchingKeys signal (.ofSchema t.schema) c t.entries)
  let (result, p) := sweep signal change step keys ⟨t, 0, (← get).trace⟩
  modify fun db => { db with trace := p.trace }
  keep name p.table
  match result with
  | .ok _ => save p.table
  | .error e =>
    if 0 < p.count then save p.table
    throw e
  pure p.count

/-- Changes the row of a key, if there is one, and saves the table. -/
def changeRow (name : String) (t : Table) (changed : Except Error Table) : Action Nat := do
  match changed with
  | .ok u =>
    keep name u
    save u
    pure 1
  | .error e =>
    if e.errorClass = .rowNotFound then
      save t
      pure 0
    else throw e

def update (name : String) (assignments : List (String × Value)) (c : Condition)
    (signal : Signal) : Action Outcome := do
  let t ← table name
  let changes ← (resolveAssignments t assignments : Except Error (List (Nat × Value)))
  match keyEquation? t c with
  | some key => do
    let n ← changeRow name t (t.edit key (assign changes))
    pure (.updated n)
  | none => do
    let n ← changeRows signal .update name t c fun t key => t.edit key (assign changes)
    pure (.updated n)

def delete (name : String) (c : Condition) (signal : Signal) : Action Outcome := do
  let t ← table name
  match keyEquation? t c with
  | some key => do
    let n ← changeRow name t ((t.erase key).map (·.2))
    pure (.deleted n)
  | none => do
    let n ← changeRows signal .delete name t c fun t key => (t.erase key).map (·.2)
    pure (.deleted n)

def createTable (name : String) (columns : List Column) (ifAbsent : Bool) :
    Action Outcome := do
  if ifAbsent && (← get).hasTable name then
    return .alreadyExists name
  tryCatch
    (do
      let _ ← create (.ofColumns name columns)
      pure (.created name))
    fun e =>
      if ifAbsent ∧ e.errorClass = .tableExists then pure (.alreadyExists name) else throw e

/-- Runs a statement, unless the signal has been given. -/
def run (s : Statement) (signal : Signal) : Action Outcome := do
  poll signal
  match s with
  | .select q => select q signal
  | .insert name row => insert name row
  | .update name assignments c => update name assignments c signal
  | .delete name c => delete name c signal
  | .create name columns ifAbsent => createTable name columns ifAbsent

def execute (text : String) (signal : Signal) : Action Outcome := do
  poll signal
  let s ← (Statement.parse text : Except Error Statement)
  run s signal

end Database
end RelStore
