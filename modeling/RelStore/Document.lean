import RelStore.Json.Decode
import RelStore.Json.Read
import RelStore.Json.Write
import RelStore.Table

/-! Table documents: tables as JSON. Reading a document tells only what it says; what
it says is checked when the table is made. -/
namespace RelStore

namespace ColumnType

def toJson (t : ColumnType) : Json := .string t.name

def ofJson? (x : Json) : Option ColumnType := do
  let name ← x.choice?
  if name == "INT" then some int
  else if name == "TEXT" then some text
  else none

end ColumnType

namespace Column

def toJson (c : Column) : Json :=
  .object [("name", .string c.name), ("type", c.type.toJson),
    ("is_primary", .bool c.isPrimary), ("is_unique", .bool c.isUnique)]

def ofJson? (x : Json) : Option Column :=
  match x.fields? ["name", "type", "is_primary", "is_unique"] with
  | some [name, type, isPrimary, isUnique] => do
    let name ← Json.required? Json.string? name
    let type ← Json.required? ColumnType.ofJson? type
    let isPrimary ← Json.defaulted? Json.bool? isPrimary false
    let isUnique ← Json.defaulted? Json.bool? isUnique false
    pure ⟨name, type, isPrimary, isUnique⟩
  | _ => none

end Column

namespace ForeignKey

def toJson (k : ForeignKey) : Json :=
  .object [("column", .string k.column), ("referenced_table", .string k.parent),
    ("referenced_column", .string k.parentColumn)]

def ofJson? (x : Json) : Option ForeignKey :=
  match x.fields? ["column", "referenced_table", "referenced_column"] with
  | some [column, parent, parentColumn] => do
    let column ← Json.required? Json.string? column
    let parent ← Json.required? Json.string? parent
    let parentColumn ← Json.required? Json.string? parentColumn
    pure ⟨column, parent, parentColumn⟩
  | _ => none

end ForeignKey

/-- A cell as it is written: a type, and a value of any kind. -/
structure Cell where
  type : ColumnType
  value : Json
deriving Inhabited

namespace Cell

def ofValue : Value → Cell
  | .int n => ⟨.int, .number (.ofInt n.toInt)⟩
  | .text s => ⟨.text, .string s⟩

def toJson (c : Cell) : Json := .object [("type", c.type.toJson), ("value", c.value)]

/-- A document is nested no deeper than 127 levels, and a cell lies below five of them. -/
def mostDepth : Nat := 122

/-- The value of a cell can be anything that can be read. -/
def anyValue? (x : Json) : Option Json := do
  let depth ← x.depth?
  if depth ≤ mostDepth then some x else none

def ofJson? (x : Json) : Option Cell :=
  match x.fields? ["type", "value"] with
  | some [type, value] => do
    let type ← Json.required? ColumnType.ofJson? type
    let value ← Json.required? anyValue? value
    pure ⟨type, value⟩
  | _ => none

/-- A whole number in the place of an integer; the first one too large counts as the
largest integer. -/
def ofWhole? (z : Int) : Option Value :=
  if Int64.minValue.toInt ≤ z ∧ z ≤ Int64.maxValue.toInt + 1 then
    some (.int (.ofInt (min z Int64.maxValue.toInt)))
  else none

/-- The integer of a number. Those that have not 64 bits are rounded before. -/
def integer? : Json.Number → Option Value
  | .natural n =>
    if n < UInt64.size / 2 then ofWhole? n
    else ((Binary64.ofNat? n).bind Binary64.toInt?).bind ofWhole?
  | .negative n => ofWhole? (-(n : Int))
  | .real x => x.toInt?.bind ofWhole?

/-- The value of a cell: a whole number for an integer, a text for a text. -/
def toValue (c : Cell) : Except Error Value :=
  match c.type, c.value with
  | .int, .number n =>
    match integer? n with
    | some v => .ok v
    | none => .error (.badInteger n.display)
  | .text, .string s => .ok (.text s)
  | type, value => .error (.badCell value.sorted.compact type)

end Cell

/-- What a table file says. -/
structure Document where
  name : String
  columns : List Column
  rows : List (List Cell)
  foreignKeys : List ForeignKey
deriving Inhabited

namespace Document

def ofTable (t : Table) : Document :=
  ⟨t.name, t.schema.columns, t.allRows.map (·.map Cell.ofValue), t.schema.foreignKeys⟩

def rowToJson (cells : List Cell) : Json := .object [("values", .array (cells.map Cell.toJson))]

def rowOfJson? (x : Json) : Option (List Cell) :=
  match x.fields? ["values"] with
  | some [values] => Json.required? (Json.list? Cell.ofJson?) values
  | _ => none

def toJson (d : Document) : Json :=
  .object [("name", .string d.name), ("columns", .array (d.columns.map Column.toJson)),
    ("rows", .array (d.rows.map rowToJson)),
    ("foreign_keys", .array (d.foreignKeys.map ForeignKey.toJson))]

def ofJson? (x : Json) : Option Document :=
  match x.fields? ["name", "columns", "rows", "foreign_keys"] with
  | some [name, columns, rows, foreignKeys] => do
    let name ← Json.required? Json.string? name
    let columns ← Json.required? (Json.list? Column.ofJson?) columns
    let rows ← Json.defaulted? (Json.list? rowOfJson?) rows []
    let foreignKeys ← Json.defaulted? (Json.list? ForeignKey.ofJson?) foreignKeys []
    pure ⟨name, columns, rows, foreignKeys⟩
  | _ => none

def encode (d : Document) : List UInt8 := d.toJson.pretty.toUTF8.toList

def decode? (bytes : List UInt8) : Option Document := (Json.read? bytes).bind ofJson?

def schema (d : Document) : Schema :=
  (Schema.ofColumns d.name d.columns).withForeignKeys d.foreignKeys

def rowValues : List Cell → Except Error Row
  | [] => .ok []
  | c :: rest => do
    let v ← c.toValue
    let vs ← rowValues rest
    pure (v :: vs)

def allValues : List (List Cell) → Except Error (List Row)
  | [] => .ok []
  | row :: rest => do
    let row ← rowValues row
    let rows ← allValues rest
    pure (row :: rows)

def checkSchema (d : Document) (path : String) : Except Error Unit :=
  match d.schema.check with
  | .ok _ => .ok ()
  | .error e => .error (e.unlessFault (.badSchema path e.message))

/-- The table of a document found at a path under the file name of some table. -/
def toTable (d : Document) (path name : String) : Except Error Table := do
  ensure (d.name = name) (.foreignFile path d.name)
  d.checkSchema path
  let rows ← allValues d.rows
  Table.ofRows d.schema rows

end Document
end RelStore
