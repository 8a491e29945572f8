import RelStore.Error

/-! Columns, foreign keys and the schema of a table. A schema remembers under which
names it last listed its columns; lookups go by that list as long as it tells as
many names apart as there are columns. -/
namespace RelStore

structure Column where
  name : String
  type : ColumnType
  isPrimary : Bool
  isUnique : Bool
deriving DecidableEq, Inhabited

namespace Column

def plain (name : String) (type : ColumnType) : Column := ⟨name, type, false, false⟩

def isIndexed (c : Column) : Bool := c.isPrimary || c.isUnique

end Column

/-- A column whose values are meant to occur in a column of another table. -/
structure ForeignKey where
  column : String
  parent : String
  parentColumn : String
deriving DecidableEq, Inhabited

structure Schema where
  name : String
  columns : List Column
  foreignKeys : List ForeignKey
  /-- the names of the columns when they were last listed -/
  listed : List String
deriving Inhabited

namespace Schema

/-- A schema without foreign keys, its columns just listed. -/
def ofColumns (name : String) (columns : List Column) : Schema :=
  ⟨name, columns, [], columns.map (·.name)⟩

def withForeignKeys (s : Schema) (keys : List ForeignKey) : Schema :=
  { s with foreignKeys := keys }

def relist (s : Schema) : Schema := { s with listed := s.columns.map (·.name) }

def same (s t : Schema) : Bool :=
  s.name == t.name && s.columns == t.columns && s.foreignKeys == t.foreignKeys

def columnNames (s : Schema) : List String := s.columns.map (·.name)

def width (s : Schema) : Nat := s.columns.length

def isListed (s : Schema) : Bool := s.listed.eraseDups.length == s.columns.length

def position? (s : Schema) (name : String) : Option Nat :=
  if s.isListed then s.listed.idxOf? name else s.columnNames.idxOf? name

def columnAt (s : Schema) (i : Nat) : Except Error Column :=
  match s.columns[i]? with
  | some c => .ok c
  | none => .error (.outOfRange i s.columns.length)

/-- The column of a name, if there is one. -/
def column? (s : Schema) (name : String) : Except Error (Option Column) :=
  match s.position? name with
  | some i => some <$> s.columnAt i
  | none => .ok none

def primary? (s : Schema) : Option Column := s.columns.find? (·.isPrimary)

def primaryPosition? (s : Schema) : Option Nat := s.columns.findIdx? (·.isPrimary)

def foreignKey? (s : Schema) (column : String) : Option ForeignKey :=
  s.foreignKeys.find? (fun k => k.column == column)

def repeated? : List String → List String → Option String
  | _, [] => none
  | seen, n :: rest => if n ∈ seen then some n else repeated? (n :: seen) rest

/-- Every foreign key starts from a column of the table. -/
def checkForeignKeys (s : Schema) : List ForeignKey → Except Error Unit
  | [] => .ok ()
  | k :: rest => do
    match ← s.column? k.column with
    | some _ => s.checkForeignKeys rest
    | none => .error (.noForeignKeyColumn s.name k.column)

/-- There is exactly one primary key, and it is not also unique. -/
def checkPrimary (s : Schema) : Except Error Unit :=
  match s.columns.filter (·.isPrimary) with
  | [] => .error (.noPrimaryKey s.name)
  | [k] => ensure (k.isUnique = false) (.uniquePrimaryKey s.name k.name)
  | ks => .error (.severalPrimaryKeys s.name ks.length)

def checkNames (s : Schema) : Except Error Unit :=
  match repeated? [] s.columnNames with
  | none => .ok ()
  | some n => .error (.repeatedColumn s.name n)

/-- A table needs columns of different names, exactly one of them its primary key
and that one not also unique, and its foreign keys start from its columns. -/
def check (s : Schema) : Except Error Unit := do
  ensure (s.columns ≠ []) (.noColumns s.name)
  s.checkNames
  s.checkPrimary
  s.checkForeignKeys s.foreignKeys

def checkTypes : List Column → Row → Except Error Unit
  | c :: cs, v :: vs => do
    ensure (v.type = c.type) (.wrongType c.name c.type v.type)
    checkTypes cs vs
  | _, _ => .ok ()

def checkRow (s : Schema) (row : Row) : Except Error Unit := do
  ensure (row.length = s.columns.length) (.wrongWidth s.columns.length row.length)
  checkTypes s.columns row

/-- A change of the columns, which does not list them anew. -/
inductive Edit where
  | push (c : Column)
  | rename (i : Nat) (name : String)
  | remove (i : Nat)
  | relist
deriving DecidableEq

/-- A schema after a change. -/
def edit (s : Schema) : Edit → Except Error Schema
  | .push c => .ok { s with columns := s.columns ++ [c] }
  | .rename i name => do
    let c ← s.columnAt i
    pure { s with columns := s.columns.set i { c with name } }
  | .remove i => do
    let _ ← s.columnAt i
    pure { s with columns := s.columns.eraseIdx i }
  | .relist => .ok s.relist

end Schema
end RelStore
