import RelStore.Document
import RelStore.Proofs.Table.Made

/-! Which documents a table is made of: the conditions that their schema, their cells and
their rows have to satisfy, and the errors for those that do not. -/
namespace RelStore

theorem Cell.errorClass_of_toValue {c : Cell} {e : Error} (h : c.toValue = .error e) :
    e.errorClass = .corruption := by
  unfold toValue at h
  split at h
  · split at h
    · cases h
    · cases h
      rfl
  · cases h
  · cases h
    rfl

/-- Rows differ in every primary or unique column if no such column has a value twice. -/
theorem Schema.pairwise_apart_iff {s : Schema} {rows : List Row} :
    rows.Pairwise s.Apart ↔ ∀ (i : Nat) (c : Column), s.columns[i]? = some c →
      c.isIndexed = true → (rows.map (·[i]?)).Nodup := by
  induction rows with
  | nil => simp
  | cons row rest ih =>
    simp only [List.pairwise_cons, ih, List.map_cons, List.nodup_cons, List.mem_map, not_exists,
      not_and]
    constructor
    · rintro ⟨hfirst, hrest⟩ i c hc hi
      exact ⟨fun r hr hcell => hfirst r hr i c hc hi hcell.symm, hrest i c hc hi⟩
    · intro h
      exact ⟨fun r hr i c hc hi hcell => (h i c hc hi).1 r hr hcell.symm,
        fun i c hc hi => (h i c hc hi).2⟩

namespace Document
variable {d : Document} {path name : String} {rows : List Row} {t : Table} {e : Error}

theorem rowValues_eq_ok_iff {cells : List Cell} {row : Row} :
    rowValues cells = .ok row ↔ List.Forall₂ (fun c v => c.toValue = .ok v) cells row := by
  induction cells generalizing row with
  | nil => simp [rowValues, eq_comm]
  | cons c rest ih =>
    simp only [rowValues, bind_eq_ok_iff, List.forall₂_cons_left_iff, ih]
    constructor
    · rintro ⟨v, hv, vs, hvs, h⟩
      cases h
      exact ⟨v, vs, hv, hvs, rfl⟩
    · rintro ⟨v, vs, hv, hvs, rfl⟩
      exact ⟨v, hv, vs, hvs, rfl⟩

theorem allValues_eq_ok_iff {cells : List (List Cell)} :
    allValues cells = .ok rows ↔
      List.Forall₂ (List.Forall₂ fun c v => c.toValue = .ok v) cells rows := by
  induction cells generalizing rows with
  | nil => simp [allValues, eq_comm]
  | cons row rest ih =>
    simp only [allValues, bind_eq_ok_iff, List.forall₂_cons_left_iff, ih, rowValues_eq_ok_iff]
    constructor
    · rintro ⟨v, hv, vs, hvs, h⟩
      cases h
      exact ⟨v, vs, hv, hvs, rfl⟩
    · rintro ⟨v, vs, hv, hvs, rfl⟩
      exact ⟨v, hv, vs, hvs, rfl⟩

theorem errorClass_of_rowValues {cells : List Cell} (h : rowValues cells = .error e) :
    e.errorClass = .corruption := by
  induction cells with
  | nil => cases h
  | cons c rest ih =>
    rcases bind_eq_error_iff.1 h with h | ⟨v, -, h⟩
    · exact Cell.errorClass_of_toValue h
    rcases bind_eq_error_iff.1 h with h | ⟨vs, -, h⟩
    · exact ih h
    · cases h

theorem errorClass_of_allValues {cells : List (List Cell)} (h : allValues cells = .error e) :
    e.errorClass = .corruption := by
  induction cells with
  | nil => cases h
  | cons row rest ih =>
    rcases bind_eq_error_iff.1 h with h | ⟨v, -, h⟩
    · exact errorClass_of_rowValues h
    rcases bind_eq_error_iff.1 h with h | ⟨vs, -, h⟩
    · exact ih h
    · cases h

theorem listed_schema (d : Document) : d.schema.Listed := Schema.listed_ofColumns _ _ _

theorem checkSchema_eq_ok_iff {u : Unit} :
    d.checkSchema path = .ok u ↔ d.schema.check = .ok () := by
  unfold checkSchema
  cases d.schema.check with
  | ok _ => simp
  | error e => simp

theorem errorClass_of_checkSchema (h : d.checkSchema path = .error e) :
    e.errorClass = .corruption := by
  unfold checkSchema at h
  cases hs : d.schema.check with
  | ok _ =>
    rw [hs] at h
    cases h
  | error e' =>
    rw [hs] at h
    cases h
    rw [Error.unlessFault, if_neg (d.listed_schema.errorClass_of_check hs)]
    rfl

/-- A document of a table of some name, with some rows. -/
structure Valid (d : Document) (name : String) (rows : List Row) : Prop where
  named : d.name = name
  columns : d.columns ≠ []
  nodup : (d.columns.map (·.name)).Nodup
  /-- There is one primary key, and it is not also unique. -/
  primary : ∃ k, d.columns.filter (·.isPrimary) = [k] ∧ k.isUnique = false
  foreignKeys : ∀ k ∈ d.foreignKeys, ∃ c ∈ d.columns, c.name = k.column
  /-- Every cell has a value. -/
  values : List.Forall₂ (List.Forall₂ fun c v => c.toValue = .ok v) d.rows rows
  /-- A row has one value of the declared type per column. -/
  typed : ∀ row ∈ rows, row.map Value.type = d.columns.map Column.type
  /-- A primary or unique column has no value twice. -/
  unique : ∀ (i : Nat) (c : Column), d.columns[i]? = some c → c.isIndexed = true →
    (rows.map (·[i]?)).Nodup

theorem check_schema_iff : d.schema.check = .ok () ↔ d.columns ≠ [] ∧
    (d.columns.map (·.name)).Nodup ∧
    (∃ k, d.columns.filter (·.isPrimary) = [k] ∧ k.isUnique = false) ∧
    ∀ k ∈ d.foreignKeys, ∃ c ∈ d.columns, c.name = k.column := by
  have hkeys : (∀ k ∈ d.foreignKeys, k.column ∈ d.schema.columnNames) ↔
      ∀ k ∈ d.foreignKeys, ∃ c ∈ d.columns, c.name = k.column := by
    refine forall₂_congr fun k _ => ?_
    exact List.mem_map
  rw [Schema.check_eq_ok_iff, d.listed_schema.checkForeignKeys_eq_ok_iff]
  constructor
  · rintro ⟨hcolumns, ⟨hnodup, hprimary⟩, hforeign⟩
    exact ⟨hcolumns, hnodup, hprimary, hkeys.1 hforeign⟩
  · rintro ⟨hcolumns, hnodup, hprimary, hforeign⟩
    exact ⟨hcolumns, ⟨hnodup, hprimary⟩, hkeys.2 hforeign⟩

/-- A valid document is accepted by every check, which leaves its rows to make a table of. -/
theorem toTable_eq_ok_iff : d.toTable path name = .ok t ↔
    ∃ rows, d.Valid name rows ∧ Table.ofRows d.schema rows = .ok t := by
  simp only [toTable, bind_eq_ok_iff, ensure_eq_ok_iff, checkSchema_eq_ok_iff,
    allValues_eq_ok_iff]
  constructor
  · rintro ⟨-, hname, -, hcheck, rows, hvalues, ht⟩
    obtain ⟨hcolumns, hnodup, hprimary, hforeign⟩ := check_schema_iff.1 hcheck
    obtain ⟨-, htypes, hunique, -⟩ := Table.ofRows_iff.1 ht
    rw [Schema.pairwise_apart_iff] at hunique
    exact ⟨rows, ⟨hname, hcolumns, hnodup, hprimary, hforeign, hvalues, htypes, hunique⟩, ht⟩
  · rintro ⟨rows, h, ht⟩
    have hcheck := check_schema_iff.2 ⟨h.columns, h.nodup, h.primary, h.foreignKeys⟩
    exact ⟨(), h.named, (), hcheck, rows, h.values, ht⟩

theorem valid_of_toTable (h : d.toTable path name = .ok t) :
    ∃ rows, d.Valid name rows ∧ t.IsSound name ∧ t.schema = d.schema ∧ t.allRows.Perm rows := by
  obtain ⟨rows, hvalid, ht⟩ := toTable_eq_ok_iff.1 h
  obtain ⟨-, -, -, hsound, hschema, hperm⟩ := Table.ofRows_iff.1 ht
  rw [d.listed_schema.relist_eq] at hschema
  exact ⟨rows, hvalid, ⟨(congrArg Schema.name hschema).trans hvalid.named, hsound⟩, hschema, hperm⟩

theorem Valid.toTable_exists (h : d.Valid name rows) (path : String) :
    ∃ t, d.toTable path name = .ok t := by
  have hcheck := check_schema_iff.2 ⟨h.columns, h.nodup, h.primary, h.foreignKeys⟩
  obtain ⟨t, ht⟩ := Table.ofRows_exists hcheck h.typed (Schema.pairwise_apart_iff.2 h.unique)
  exact ⟨t, toTable_eq_ok_iff.2 ⟨rows, h, ht⟩⟩

theorem errorClass_of_toTable (h : d.toTable path name = .error e) :
    e.errorClass = .corruption := by
  rcases bind_eq_error_iff.1 h with h | ⟨-, -, h⟩
  · obtain ⟨-, rfl⟩ := ensure_eq_error_iff.1 h
    rfl
  rcases bind_eq_error_iff.1 h with h | ⟨⟨⟩, hcheck, h⟩
  · exact errorClass_of_checkSchema h
  rcases bind_eq_error_iff.1 h with h | ⟨rows, -, h⟩
  · exact errorClass_of_allValues h
  · exact Table.errorClass_of_ofRows (checkSchema_eq_ok_iff.1 hcheck) h

end Document
end RelStore
