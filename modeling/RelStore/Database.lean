import RelStore.Disk.Save
import RelStore.Document
import RelStore.Settings
import RelStore.Text.Names
import RelStore.Trace

/-! A database: a directory with a file for each table, and the tables that were loaded
from it or made. A table is loaded when it is first asked for, and saved as a whole
after each change. -/
namespace RelStore

structure Database where
  settings : Settings
  /-- the tables in memory, by name -/
  loaded : List (String × Table)
  disk : Disk
  trace : Trace
deriving Inhabited

abbrev Action (α : Type) := ExceptT Error (StateM Database) α

namespace Database

def putTable (name : String) (t : Table) : List (String × Table) → List (String × Table)
  | [] => [(name, t)]
  | (n, u) :: rest => if n = name then (n, t) :: rest else (n, u) :: putTable name t rest

def report (e : Event) : Action Unit :=
  modify fun db => { db with trace := .event e :: db.trace }

def reportAll : List Event → Action Unit
  | [] => pure ()
  | e :: rest => do
    report e
    reportAll rest

def watch {α : Type} (run : Watched α) : Action α := do
  let db ← get
  let (result, trace) := run.run.run db.trace
  set { db with trace }
  result

def poll (signal : Signal) : Action Unit := watch (Watched.poll signal)

def connect : Action Unit := do
  let db ← get
  match db.disk.makeDirectory with
  | some disk => set { db with disk, loaded := [] }
  | none => throw .io

def start : Action Unit := do
  let settings := (← get).settings
  report (.opening settings.directory settings.durability.description)
  connect

/-- Reads the file of a table. -/
def load (name : String) : Action Table := do
  let db ← get
  let path := db.settings.tablePath name
  match db.disk.find (tableFile name) with
  | .missing => throw (.noTable name)
  | .refused => throw .io
  | .node .folder => throw (.unreadableFile path)
  | .node (.file bytes) =>
    match Document.decode? bytes with
    | none => throw (.unreadableFile path)
    | some d =>
      let t ← (d.toTable path name : Except Error Table)
      report (.loaded name t.size)
      pure t

def saveOn (device : Disk.Device) (t : Table) : Action Unit := do
  let db ← get
  let (result, disk) := db.disk.saveOn device db.settings.durability.requiresSync
    (tableFile t.name) (Document.ofTable t).encode
  set { db with disk }
  result
  report (.saved t.name t.size (db.settings.tablePath t.name))

/-- Writes the file of a table. -/
def save (t : Table) : Action Unit := saveOn .willing t

def keep (name : String) (t : Table) : Action Unit :=
  modify fun db => { db with loaded := putTable name t db.loaded }

def drop (name : String) : Action Unit :=
  modify fun db => { db with loaded := db.loaded.filter fun e => e.1 ≠ name }

/-- The table of a name, from memory or else from its file. -/
def table (name : String) : Action Table := do
  match (← get).loaded.lookup name with
  | some t => pure t
  | none =>
    let t ← load name
    keep name t
    pure t

def hasFile (db : Database) (name : String) : Bool := db.disk.isFile (tableFile name)

/-- Whether a table is in memory or has a file. -/
def hasTable (db : Database) (name : String) : Bool :=
  (db.loaded.lookup name).isSome || db.hasFile name

/-- The table to which a file belongs by its name: what stands before the last dot, if
`json` stands behind it and the file is not a temporary one. -/
def tableOfFile? (file : String) : Option String :=
  let cs := file.toList.reverse
  let stem := ((cs.dropWhile (· != '.')).drop 1).reverse
  if '.' ∈ cs ∧ cs.takeWhile (· != '.') = "json".toList.reverse ∧ stem ≠ [] ∧
      !(Disk.temporaryMark.toList.isPrefixOf stem) then
    some (String.ofList stem)
  else none

def fileNames (db : Database) : Except Error (List String) :=
  match db.disk.node? [] with
  | some .folder => .ok (Text.sortNames (db.disk.names.filterMap tableOfFile?))
  | some (.file _) => .error .io
  | none => .ok []

def tableNames (db : Database) : Except Error (List String) := do
  let names ← db.fileNames
  pure (Text.sortNames (names ++ db.loaded.map (·.1)))

/-- A name that can stand for a table or a column in a statement and in a file name. -/
def isName (name : String) : Bool :=
  match name.toList with
  | [] => false
  | c :: cs => (c.isAlpha || c == '_') && cs.all fun d => d.isAlphanum || d == '_'

def checkName (thing name : String) : Except Error Unit :=
  ensure (isName name) (.badName thing name)

def checkNames : List Column → Except Error Unit
  | [] => .ok ()
  | c :: rest => do
    checkName "column" c.name
    checkNames rest

/-- Makes a new table and saves it; it is not kept if it cannot be saved. -/
def create (s : Schema) : Action Table := do
  (checkName "table" s.name : Except Error Unit)
  (checkNames s.columns : Except Error Unit)
  let t ← (Table.create s : Except Error Table)
  if (← get).hasTable t.name then throw (.tableTaken t.name)
  keep t.name t
  tryCatch (save t) fun e => do
    drop t.name
    throw e
  report (.created t.name t.schema.width)
  pure t

def insertKept (name : String) (row : Row) : Action Table := do
  let t ← table name
  let t ← (t.insert row : Except Error Table)
  keep name t
  pure t

def anyCell (i : Nat) (v : Value) : List Row → Except Error Bool
  | [] => .ok false
  | row :: rest => do
    let w ← Row.cell row i
    if w.sqlEq v then pure true else anyCell i v rest

def hasValue (t : Table) (column : String) (v : Value) : Except Error Bool := do
  if ← t.hasIndex column then
    pure (← t.find column v).isSome
  else
    match t.schema.position? column with
    | none => throw (.noColumnIn t.name column)
    | some i => anyCell i v t.allRows

/-- Whether the values of a row have their counterparts in the parents of foreign keys. -/
def checkParents (name : String) (s : Schema) (row : Row) : List ForeignKey → Action Unit
  | [] => pure ()
  | k :: rest => do
    match s.position? k.column with
    | none => throw (.noColumnIn name k.column)
    | some i =>
      match row[i]? with
      | none => throw (.wrongWidth s.width row.length)
      | some v =>
        let parent ← tryCatch (table k.parent) fun e =>
          if e.errorClass = .tableNotFound then throw (.noParentTable name k.column k.parent)
          else throw e
        if ← (hasValue parent k.parentColumn v : Except Error Bool) then
          checkParents name s row rest
        else
          throw (.noParentRow name k.column v k.parent k.parentColumn)

def checkForeignKeys (name : String) (row : Row) : Action Unit := do
  let t ← table name
  checkParents name t.schema row t.schema.foreignKeys

end Database
end RelStore
