import RelStore.Schema
import RelStore.Table.Index

/-! A table: its rows by primary key, and an index for each primary or unique column.
A change is checked in full before anything is stored, so that rows and indexes
change together or not at all. -/
namespace RelStore

structure Table where
  schema : Schema
  /-- the position of the primary key -/
  keyPosition : Nat
  rows : ValueMap Row
  /-- the indexes, each with the position of its column -/
  indexes : List (Nat × Index)
deriving Inhabited

namespace Table

def name (t : Table) : String := t.schema.name

def emptyIndexes : Nat → List Column → List (Nat × Index)
  | _, [] => []
  | i, c :: cs =>
    if c.isIndexed then (i, .empty c.name) :: emptyIndexes (i + 1) cs
    else emptyIndexes (i + 1) cs

def create (s : Schema) : Except Error Table := do
  s.check
  let s := s.relist
  match s.primaryPosition? with
  | some i => pure ⟨s, i, .empty, emptyIndexes 0 s.columns⟩
  | none => throw (.noPrimaryKey s.name)

/-- No unique column other than the primary key has the value that the row has there. -/
def checkInsert (row : Row) (keyPosition : Nat) : List (Nat × Index) → Except Error Unit
  | [] => .ok ()
  | (i, ix) :: rest =>
    if i = keyPosition then checkInsert row keyPosition rest
    else do
      let v ← Row.cell row i
      ensure (ix.contains v = false) (.takenValue ix.column v)
      checkInsert row keyPosition rest

def enter (row : Row) (key : Value) : List (Nat × Index) → Except Error (List (Nat × Index))
  | [] => .ok []
  | (i, ix) :: rest => do
    let v ← Row.cell row i
    let rest ← enter row key rest
    pure ((i, (ix.set v key).2) :: rest)

/-- Adds a row whose primary key and unique values are new. -/
def insert (t : Table) (row : Row) : Except Error Table := do
  t.schema.checkRow row
  let key ← Row.cell row t.keyPosition
  ensure (t.rows.contains key = false) (.takenKey key)
  checkInsert row t.keyPosition t.indexes
  let indexes ← enter row key t.indexes
  pure { t with rows := t.rows.insert key row, indexes }

/-- No other row than the one under `key` has a unique value that `new` has and `old`
has not. -/
def checkReplace (old new : Row) (key : Value) (keyPosition : Nat) :
    List (Nat × Index) → Except Error Unit
  | [] => .ok ()
  | (i, ix) :: rest =>
    if i = keyPosition then checkReplace old new key keyPosition rest
    else do
      let v ← Row.cell new i
      let w ← Row.cell old i
      ensure (v = w ∨ ix.key? v = none ∨ ix.key? v = some key) (.takenValue ix.column v)
      checkReplace old new key keyPosition rest

/-- The indexes with the values of `new` in the place of those of `old`. -/
def reenter (old new : Row) (key : Value) (keyPosition : Nat) :
    List (Nat × Index) → Except Error (List (Nat × Index))
  | [] => .ok []
  | (i, ix) :: rest =>
    if i = keyPosition then do
      let rest ← reenter old new key keyPosition rest
      pure ((i, ix) :: rest)
    else do
      let v ← Row.cell new i
      let w ← Row.cell old i
      let rest ← reenter old new key keyPosition rest
      if v = w then pure ((i, ix) :: rest)
      else pure ((i, ((ix.remove w).2.set v key).2) :: rest)

/-- Puts what `f` makes of the row under `key` in its place. The primary key stays;
a unique value may stay, but must not be that of another row. -/
def edit (t : Table) (key : Value) (f : Row → Except Error Row) : Except Error Table := do
  let some old := t.rows.get? key | throw (.noRow key t.name)
  let new ← f old
  t.schema.checkRow new
  let newKey ← Row.cell new t.keyPosition
  let oldKey ← Row.cell old t.keyPosition
  ensure (newKey = oldKey) .changedKey
  checkReplace old new key t.keyPosition t.indexes
  let indexes ← reenter old new key t.keyPosition t.indexes
  pure { t with rows := t.rows.insert key new, indexes }

def update (t : Table) (key : Value) (row : Row) : Except Error Table :=
  t.edit key fun _ => .ok row

def leave (row : Row) : List (Nat × Index) → Except Error (List (Nat × Index))
  | [] => .ok []
  | (i, ix) :: rest => do
    let v ← Row.cell row i
    let rest ← leave row rest
    pure ((i, (ix.remove v).2) :: rest)

def erase (t : Table) (key : Value) : Except Error (Row × Table) := do
  let some row := t.rows.get? key | throw (.noRow key t.name)
  let indexes ← leave row t.indexes
  pure (row, { t with rows := t.rows.erase key, indexes })

def insertAll (t : Table) : List Row → Except Error Table
  | [] => .ok t
  | row :: rest => do
    let t ← t.insert row
    t.insertAll rest

/-- A table with the given rows. Rows that a table cannot have are a sign of damage. -/
def ofRows (s : Schema) (rows : List Row) : Except Error Table := do
  let t ← create s
  match t.insertAll rows with
  | .ok t => pure t
  | .error e => throw (e.unlessFault (.badRow t.name e.message))

def row? (t : Table) (key : Value) : Option Row := t.rows.get? key

def entries (t : Table) : List (Value × Row) := t.rows.entries

def allRows (t : Table) : List Row := t.rows.values

def size (t : Table) : Nat := t.rows.size

def hasIndex (t : Table) (column : String) : Except Error Bool := do
  match ← t.schema.column? column with
  | some c => pure c.isIndexed
  | none => pure false

def index? (t : Table) (i : Nat) : Option Index := t.indexes.lookup i

/-- The primary key of the row that has a value in a column, by the column's index. -/
def keyOf? (t : Table) (column : String) (v : Value) : Option Value := do
  let i ← t.schema.position? column
  let ix ← t.index? i
  ix.key? v

def find (t : Table) (column : String) (v : Value) : Except Error (Option Row) := do
  let some i := t.schema.position? column | throw (.noColumnIn t.name column)
  let some ix := t.index? i | throw (.noIndex t.name column)
  pure ((ix.key? v).bind t.row?)

def display (t : Table) : String :=
  "Table \x7b name: " ++ Text.quoted t.name ++ ", rows: " ++ toString t.size ++ " \x7d"

end Table
end RelStore
