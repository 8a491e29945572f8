import RelStore.Text.Quoted
import RelStore.Token
import RelStore.Value

/-! Everything that can go wrong, by its cause. An error belongs to one of a few
classes, and its message is the heading of the class followed by the cause in words. -/
namespace RelStore

/-- What the reader of a statement wanted at some token. -/
inductive Expectation where
  | statement
  | endOfInput
  | token (kind : Token.Kind)
  | identifier
  | literal
  | number
  | dataType
  /-- an integer literal that has 64 bits -/
  | integerInRange (digits : String)
  /-- a limit below 2 ^ 64 -/
  | limitInRange (digits : String)
  /-- a column that no earlier assignment names -/
  | unassigned (column : String)
deriving DecidableEq

namespace Expectation

def message : Expectation → String
  | statement => "Expected SELECT, INSERT, UPDATE, DELETE or CREATE"
  | endOfInput => "Expected end of input"
  | token kind => "Expected " ++ kind.describe
  | identifier => "Expected identifier"
  | literal => "Expected number or string literal"
  | number => "Expected number"
  | dataType => "Expected data type INT or TEXT"
  | integerInRange digits => "Integer literal " ++ digits ++ " out of range"
  | limitInRange digits => "LIMIT " ++ digits ++ " out of range"
  | unassigned column => "Column " ++ column ++ " assigned more than once"

end Expectation

/-- Why a text is no statement: what was wanted, and the token found in its place. -/
structure Misreading where
  expected : Expectation
  found : Token
deriving DecidableEq

namespace Misreading

def message (m : Misreading) : String :=
  m.expected.message ++ ", found " ++ m.found.kind.describe ++
    " at line " ++ toString m.found.position.line ++
    " column " ++ toString m.found.position.column

end Misreading

/-- The classes an error is reported under. `fault` stands apart: it is a list read
beyond its end, which no statement does. -/
inductive ErrorClass where
  | io | serialization | corruption | parse | plan | constraint | type
  | tableNotFound | columnNotFound | rowNotFound | tableExists | cancelled | fault
deriving DecidableEq, Inhabited

/-- The coarse kinds by which a front end tells errors apart. -/
inductive ErrorKind where
  | parse | plan | constraint | notFound | cancelled | io | fault
deriving DecidableEq, Inhabited

namespace ErrorClass

def kind : ErrorClass → ErrorKind
  | parse => .parse
  | plan => .plan
  | constraint | type | tableExists => .constraint
  | tableNotFound | columnNotFound | rowNotFound => .notFound
  | cancelled => .cancelled
  | io | serialization | corruption => .io
  | fault => .fault

/-- The words every message of a class begins with. -/
def heading : ErrorClass → String
  | io => "IO error: "
  | serialization => "Serialization error: "
  | corruption => "Data corruption: "
  | parse => "Parse error: "
  | plan => "Plan error: "
  | constraint => "Constraint violation: "
  | type => "Type error: "
  | tableNotFound => "Table not found: "
  | columnNotFound => "Column not found: "
  | rowNotFound => "Row not found: "
  | tableExists => "Table already exists: "
  | cancelled => "Operation cancelled"
  | fault => "Position out of range: "

end ErrorClass

inductive Error where
  /-- the file system refused -/
  | io
  /-- the file system refused to take a document while it was made -/
  | unwritten
  | cancelled
  /-- a position beyond the end of a list -/
  | outOfRange (position size : Nat)
  /-- an error of some class in words of its own -/
  | stated (errorClass : ErrorClass) (text : String)
  | misread (m : Misreading)
  /-- a comparison of values of two types -/
  | incomparable (left right : ColumnType)
  -- names
  | noTable (table : String)
  | tableTaken (table : String)
  | noColumn (column : String)
  | noColumnIn (table column : String)
  | ambiguousColumn (column : String)
  | noForeignKeyColumn (table column : String)
  | noRow (key : Value) (table : String)
  | badName (thing name : String)
  -- schemas
  | noColumns (table : String)
  | repeatedColumn (table column : String)
  | noPrimaryKey (table : String)
  | uniquePrimaryKey (table column : String)
  | severalPrimaryKeys (table : String) (count : Nat)
  -- rows
  | wrongWidth (expected got : Nat)
  | wrongType (column : String) (expected got : ColumnType)
  | takenKey (key : Value)
  | takenValue (column : String) (value : Value)
  | changedKey
  -- foreign keys
  | noParentTable (table column parent : String)
  | noParentRow (table column : String) (value : Value) (parent parentColumn : String)
  -- plans
  | notAQuery
  | unknownTable (table : String)
  | noJoinColumn (column table : String)
  | oneSidedJoin (left right : String)
  | ambiguousName (column : String)
  | noIndex (table column : String)
  -- table files
  | unreadableFile (path : String)
  | foreignFile (path holds : String)
  | badSchema (path problem : String)
  | badInteger (number : String)
  | badCell (cell : String) (declared : ColumnType)
  | badRow (table problem : String)
deriving DecidableEq

namespace Error

def errorClass : Error → ErrorClass
  | io => .io
  | unwritten => .serialization
  | cancelled => .cancelled
  | outOfRange .. => .fault
  | stated c _ => c
  | misread _ => .parse
  | incomparable .. => .type
  | noTable _ => .tableNotFound
  | tableTaken _ => .tableExists
  | noColumn _ | noColumnIn .. | ambiguousColumn _ | noForeignKeyColumn .. => .columnNotFound
  | noRow .. => .rowNotFound
  | badName .. | noColumns _ | repeatedColumn .. | noPrimaryKey _ | uniquePrimaryKey ..
  | severalPrimaryKeys .. | wrongWidth .. | wrongType .. | takenKey _ | takenValue ..
  | changedKey | noParentTable .. | noParentRow .. => .constraint
  | notAQuery | unknownTable _ | noJoinColumn .. | oneSidedJoin .. | ambiguousName _
  | noIndex .. => .plan
  | unreadableFile _ | foreignFile .. | badSchema .. | badInteger _ | badCell ..
  | badRow .. => .corruption

def kind (e : Error) : ErrorKind := e.errorClass.kind

def detail : Error → String
  | io => ""
  | unwritten => ""
  | cancelled => ""
  | outOfRange position size => toString position ++ " of " ++ toString size
  | stated _ text => text
  | misread m => m.message
  | incomparable left right => "cannot compare " ++ left.name ++ " with " ++ right.name
  | noTable table => table
  | tableTaken table => table
  | noColumn column => column
  | noColumnIn table column => table ++ "." ++ column
  | ambiguousColumn column => "ambiguous column name " ++ column
  | noForeignKeyColumn table column =>
    "foreign key column " ++ column ++ " not in table " ++ table
  | noRow key table => "no row with primary key " ++ key.display ++ " in " ++ table
  | badName thing name => "invalid " ++ thing ++ " name: " ++ Text.quoted name
  | noColumns table => "table " ++ table ++ " must have at least one column"
  | repeatedColumn table column =>
    "duplicate column name " ++ column ++ " in table " ++ table
  | noPrimaryKey table => "table " ++ table ++ " must have a primary key"
  | uniquePrimaryKey table column =>
    "primary key column " ++ column ++ " in table " ++ table ++ " cannot also be UNIQUE"
  | severalPrimaryKeys table count =>
    "table " ++ table ++ " declares " ++ toString count ++
      " primary keys, expected exactly one"
  | wrongWidth expected got =>
    "column count mismatch: expected " ++ toString expected ++ ", got " ++ toString got
  | wrongType column expected got =>
    "type mismatch for column " ++ column ++ ": expected " ++ expected.name ++
      ", got " ++ got.name
  | takenKey key => "duplicate primary key: " ++ key.display
  | takenValue column value =>
    "duplicate unique value for column " ++ column ++ ": " ++ value.display
  | changedKey => "updating primary key is not supported"
  | noParentTable table column parent =>
    "foreign key " ++ table ++ "." ++ column ++ " references missing table " ++ parent
  | noParentRow table column value parent parentColumn =>
    "foreign key violation: " ++ table ++ "." ++ column ++ " = " ++ value.display ++
      " has no match in " ++ parent ++ "." ++ parentColumn
  | notAQuery => "only SELECT statements can be planned"
  | unknownTable table => "table " ++ table ++ " does not exist"
  | noJoinColumn column table => "join column " ++ column ++ " not found in table " ++ table
  | oneSidedJoin left right =>
    "join condition " ++ left ++ " = " ++ right ++ " refers to one table only"
  | ambiguousName column => "ambiguous column name " ++ column
  | noIndex table column => "column " ++ table ++ "." ++ column ++ " has no index"
  | unreadableFile path => path ++ ": not a table document"
  | foreignFile path holds => path ++ " holds table " ++ holds
  | badSchema path problem => path ++ ": " ++ problem
  | badInteger number => "invalid INT value: " ++ number
  | badCell cell declared =>
    "value " ++ cell ++ " does not match declared type " ++ declared.name
  | badRow table problem => "table " ++ table ++ ": " ++ problem

def message (e : Error) : String :=
  if e.errorClass = .cancelled then ErrorClass.heading .cancelled
  else e.errorClass.heading ++ e.detail

def unlessFault (e other : Error) : Error := if e.errorClass = .fault then e else other

end Error

def ensure (p : Prop) [Decidable p] (e : Error) : Except Error Unit :=
  if p then .ok () else .error e

@[simp] theorem ensure_eq_ok_iff {p : Prop} [Decidable p] {e : Error} {u : Unit} :
    ensure p e = .ok u ↔ p := by
  by_cases h : p <;> simp [ensure, h]

@[simp] theorem ensure_eq_error_iff {p : Prop} [Decidable p] {e e' : Error} :
    ensure p e = .error e' ↔ ¬ p ∧ e = e' := by
  by_cases h : p <;> simp [ensure, h]

theorem ensure_of {p : Prop} [Decidable p] {e : Error} (h : p) : ensure p e = .ok () := by
  simp [h]

theorem bind_eq_ok_iff {α β : Type} {x : Except Error α} {f : α → Except Error β} {b : β} :
    (x >>= f) = .ok b ↔ ∃ a, x = .ok a ∧ f a = .ok b := by
  cases x with
  | error e => simp [bind, Except.bind]
  | ok a => simp [bind, Except.bind]

theorem ok_bind {α β : Type} (a : α) (f : α → Except Error β) : (Except.ok a >>= f) = f a := rfl

theorem bind_eq_error_iff {α β : Type} {x : Except Error α} {f : α → Except Error β}
    {e : Error} :
    (x >>= f) = .error e ↔ x = .error e ∨ ∃ a, x = .ok a ∧ f a = .error e := by
  cases x with
  | error e => simp [bind, Except.bind]
  | ok a => simp [bind, Except.bind]

@[simp] theorem throw_ne_ok {α : Type} {e : Error} {a : α} :
    (throw e : Except Error α) ≠ .ok a := nofun

def Row.cell (row : Row) (i : Nat) : Except Error Value :=
  match row[i]? with
  | some v => .ok v
  | none => .error (.outOfRange i row.length)

@[simp] theorem Row.cell_eq_ok_iff {row : Row} {i : Nat} {v : Value} :
    Row.cell row i = .ok v ↔ row[i]? = some v := by
  unfold Row.cell
  cases row[i]? <;> simp

namespace Value

def compare (a b : Value) : Except Error Ordering :=
  match a.order? b with
  | some o => .ok o
  | none => .error (.incomparable a.type b.type)

end Value
end RelStore
