import RelStore.Document
import RelStore.Proofs.Json.RoundTrip
import RelStore.Proofs.Table.Rebuild

/-! Table documents: what is written of a table is read back, and the table made of it is
the table that was written. -/
namespace RelStore

theorem Json.all?_map {α : Type} {f : Json → Option α} {g : α → Json} {xs : List α}
    (h : ∀ x ∈ xs, f (g x) = some x) : Json.all? f (xs.map g) = some xs := by
  induction xs with
  | nil => rfl
  | cons x xs ih =>
    have hx := h x List.mem_cons_self
    have hxs := ih fun y hy => h y (List.mem_cons_of_mem _ hy)
    rw [List.map_cons, Json.all?, hx, hxs]
    rfl

theorem ColumnType.ofJson?_toJson (t : ColumnType) : ColumnType.ofJson? t.toJson = some t := by
  cases t <;> decide

theorem Column.ofJson?_toJson (c : Column) : Column.ofJson? c.toJson = some c := by
  simp [Column.ofJson?, Column.toJson, Json.fields?, Json.members?, Json.member?,
    Json.required?, Json.defaulted?, Json.string?, Json.bool?, ColumnType.ofJson?_toJson]

theorem ForeignKey.ofJson?_toJson (k : ForeignKey) : ForeignKey.ofJson? k.toJson = some k := by
  simp [ForeignKey.ofJson?, ForeignKey.toJson, Json.fields?, Json.members?, Json.member?,
    Json.required?, Json.string?]

namespace Cell

theorem isWhole_ofInt (n : Int64) : (Json.Number.ofInt n.toInt).IsWhole := by
  have hmin : -9223372036854775808 ≤ n.toInt := n.le_toInt
  have hmax : n.toInt < 9223372036854775808 := n.toInt_lt
  unfold Json.Number.ofInt
  split
  · refine ⟨by omega, ?_⟩
    show n.toInt.natAbs ≤ 9223372036854775808
    omega
  · show n.toInt.natAbs ≤ 18446744073709551615
    omega

theorem ofWhole?_toInt (n : Int64) : ofWhole? n.toInt = some (.int n) := by
  have hmin : Int64.minValue.toInt ≤ n.toInt := n.minValue_le_toInt
  have hmax : n.toInt ≤ Int64.maxValue.toInt := n.toInt_le
  rw [ofWhole?, if_pos ⟨hmin, by omega⟩, Int.min_eq_left hmax, Int64.ofInt_toInt]

/-- The integers of 64 bits come back as they are. -/
theorem integer?_ofInt (n : Int64) : integer? (.ofInt n.toInt) = some (.int n) := by
  have hmax : n.toInt < 9223372036854775808 := n.toInt_lt
  unfold Json.Number.ofInt
  split
  · have hn : -(n.toInt.natAbs : Int) = n.toInt := by omega
    rw [integer?, hn, ofWhole?_toInt]
  · have hlt : n.toInt.natAbs < UInt64.size / 2 := by
      show n.toInt.natAbs < 9223372036854775808
      omega
    have hn : (n.toInt.natAbs : Int) = n.toInt := by omega
    rw [integer?, if_pos hlt, hn, ofWhole?_toInt]

theorem toValue_ofValue (v : Value) : (ofValue v).toValue = .ok v := by
  cases v with
  | int n => simp only [toValue, ofValue, integer?_ofInt]
  | text s => rfl

theorem isExact_toJson (v : Value) : (ofValue v).toJson.IsExact := by
  cases v with
  | int n => exact ⟨trivial, isWhole_ofInt n, trivial⟩
  | text s => exact ⟨trivial, trivial, trivial⟩

theorem anyValue?_ofValue (v : Value) :
    anyValue? (ofValue v).value = some (ofValue v).value := by
  cases v <;> rfl

theorem ofJson?_toJson (v : Value) : ofJson? (ofValue v).toJson = some (ofValue v) := by
  simp [ofJson?, toJson, Json.fields?, Json.members?, Json.member?, Json.required?,
    ColumnType.ofJson?_toJson, anyValue?_ofValue]

end Cell

namespace Document

/-- The cells of the document are those of values. -/
def OfValues (d : Document) : Prop := ∃ rows : List Row, d.rows = rows.map (·.map Cell.ofValue)

theorem ofValues_ofTable (t : Table) : (ofTable t).OfValues := ⟨t.allRows, rfl⟩

theorem rowOfJson?_rowToJson (row : Row) :
    rowOfJson? (rowToJson (row.map Cell.ofValue)) = some (row.map Cell.ofValue) := by
  have hcells : Json.all? Cell.ofJson? ((row.map Cell.ofValue).map Cell.toJson) =
      some (row.map Cell.ofValue) := by
    apply Json.all?_map
    intro c hc
    obtain ⟨v, -, rfl⟩ := List.mem_map.1 hc
    exact Cell.ofJson?_toJson v
  simp only [rowOfJson?, rowToJson, Json.fields?, Json.members?, Json.member?]
  exact hcells

variable {d : Document}

theorem ofJson?_toJson (h : d.OfValues) : ofJson? d.toJson = some d := by
  obtain ⟨rows, hrows⟩ := h
  have hcolumns : Json.all? Column.ofJson? (d.columns.map Column.toJson) = some d.columns :=
    Json.all?_map fun c _ => Column.ofJson?_toJson c
  have hkeys : Json.all? ForeignKey.ofJson? (d.foreignKeys.map ForeignKey.toJson) =
      some d.foreignKeys := Json.all?_map fun k _ => ForeignKey.ofJson?_toJson k
  have hcells : Json.all? rowOfJson? (d.rows.map rowToJson) = some d.rows := by
    apply Json.all?_map
    intro cells hc
    rw [hrows] at hc
    obtain ⟨row, -, rfl⟩ := List.mem_map.1 hc
    exact rowOfJson?_rowToJson row
  simp [ofJson?, toJson, Json.fields?, Json.members?, Json.member?, Json.required?,
    Json.defaulted?, Json.string?, Json.list?, hcolumns, hkeys, hcells]

theorem isExact_toJson (h : d.OfValues) : d.toJson.IsExact := by
  obtain ⟨rows, hrows⟩ := h
  have hcolumns : Json.ItemsExact (d.columns.map Column.toJson) := by
    rw [Json.itemsExact_iff]
    intro x hx
    obtain ⟨c, -, rfl⟩ := List.mem_map.1 hx
    exact ⟨trivial, trivial, trivial, trivial, trivial⟩
  have hkeys : Json.ItemsExact (d.foreignKeys.map ForeignKey.toJson) := by
    rw [Json.itemsExact_iff]
    intro x hx
    obtain ⟨k, -, rfl⟩ := List.mem_map.1 hx
    exact ⟨trivial, trivial, trivial, trivial⟩
  have hcells : Json.ItemsExact (d.rows.map rowToJson) := by
    rw [Json.itemsExact_iff]
    intro x hx
    obtain ⟨cells, hc, rfl⟩ := List.mem_map.1 hx
    rw [hrows] at hc
    obtain ⟨row, -, rfl⟩ := List.mem_map.1 hc
    refine ⟨?_, trivial⟩
    show Json.ItemsExact _
    rw [Json.itemsExact_iff]
    intro y hy
    obtain ⟨c, hc, rfl⟩ := List.mem_map.1 hy
    obtain ⟨v, -, rfl⟩ := List.mem_map.1 hc
    exact Cell.isExact_toJson v
  exact ⟨trivial, hcolumns, hcells, hkeys, trivial⟩

/-- A document of values is read from its bytes. -/
theorem decode?_encode (h : d.OfValues) : decode? d.encode = some d := by
  rw [decode?, encode, Json.read?_pretty (isExact_toJson h), Option.bind_some]
  exact ofJson?_toJson h

theorem rowValues_ofValue (row : Row) : rowValues (row.map Cell.ofValue) = .ok row := by
  induction row with
  | nil => rfl
  | cons v row ih =>
    rw [List.map_cons, rowValues, Cell.toValue_ofValue, ih]
    rfl

theorem allValues_ofValue (rows : List Row) :
    allValues (rows.map (·.map Cell.ofValue)) = .ok rows := by
  induction rows with
  | nil => rfl
  | cons row rows ih =>
    rw [List.map_cons, allValues, rowValues_ofValue, ih]
    rfl

theorem schema_ofTable {t : Table} (h : t.schema.Listed) : (ofTable t).schema = t.schema := by
  obtain ⟨⟨name, columns, keys, listed⟩, keyPosition, rows, indexes⟩ := t
  simp only [Schema.Listed, Schema.columnNames] at h
  simp [ofTable, schema, Schema.ofColumns, Schema.withForeignKeys, Table.name, h]

/-- From the document of a sound table the same table is made. -/
theorem toTable_ofTable {t : Table} (h : t.Sound) (hs : t.schema.check = .ok ())
    (path : String) : (ofTable t).toTable path t.name = .ok t := by
  have hschema := schema_ofTable h.listed
  have hcheck : (ofTable t).checkSchema path = .ok () := by
    rw [checkSchema, hschema, hs]
  have hvalues : allValues (ofTable t).rows = .ok t.allRows := allValues_ofValue t.allRows
  have hname : (ofTable t).name = t.name := rfl
  rw [toTable, ensure_of hname, hcheck, hvalues, hschema]
  exact h.ofRows_allRows hs

end Document
end RelStore
