import RelStore.Proofs.Database.Loads
import RelStore.Proofs.Database.Requests

/-! The check of foreign keys. A value is looked for by an index, or else by going through the
rows, and both find the same. The check loads the tables that it looks into, one after the other,
and so it can tell of each of them as if it had looked there first. -/
namespace RelStore

namespace Database
variable {db db' : Database} {name column : String} {s : Schema} {t : Table} {row : Row}
  {rows : List Row} {v : Value} {i : Nat} {k : ForeignKey}

theorem anyCell_eq (h : ∀ r ∈ rows, i < r.length) :
    anyCell i v rows = .ok (decide (∃ r ∈ rows, r[i]? = some v)) := by
  induction rows with
  | nil => simp [anyCell]
  | cons r rest ih =>
    obtain ⟨hr, hrest⟩ := List.forall_mem_cons.1 h
    have hcell : r[i]? = some r[i] := List.getElem?_eq_getElem hr
    rw [anyCell, Row.cell_eq_ok_iff.2 hcell, ok_bind]
    by_cases hv : r[i] = v
    · rw [if_pos (Value.sqlEq_iff.2 hv)]
      simp [hr, hv, pure, Except.pure]
    · rw [if_neg fun hb => hv (Value.sqlEq_iff.1 hb), ih hrest]
      simp [hr, hv]

theorem anyCell_allRows (h : t.Sound) (hi : t.schema.columnNames[i]? = some column) :
    anyCell i v t.allRows = .ok (decide (∃ r ∈ t.allRows, r[i]? = some v)) := by
  refine anyCell_eq fun r hr => ?_
  rw [Plan.length_of_mem_allRows h hr, Heading.length_ofSchema, ← t.schema.length_columnNames]
  exact (List.getElem?_eq_some_iff.1 hi).1

theorem find_eq (h : t.Sound) {c : Column} (hc : t.schema.columns[i]? = some c)
    (hindexed : c.isIndexed = true) :
    ∃ found, t.find c.name v = .ok found ∧
      found.isSome = decide (∃ r ∈ t.allRows, r[i]? = some v) := by
  obtain ⟨ix, hix, -⟩ := h.index?_exists hc hindexed
  refine ⟨_, h.find_column hc hix v, ?_⟩
  rw [Bool.eq_iff_iff, decide_eq_true_eq, Option.isSome_iff_exists]
  simp only [← Option.mem_toList, ← h.filter_rows hix v, List.mem_filter, decide_eq_true_eq]

theorem hasValue_eq_anyCell (h : t.Sound) (hi : t.schema.columnNames[i]? = some column)
    (v : Value) : hasValue t column v = anyCell i v t.allRows := by
  have hposition := (Schema.position?_eq_some_iff h.listed h.proper.nodup).2 hi
  have hname := hi
  rw [Schema.columnNames, List.getElem?_map] at hname
  obtain ⟨c, hc, rfl⟩ := Option.map_eq_some_iff.1 hname
  have hcolumn : t.schema.column? c.name = .ok (some c) := by
    simp only [Schema.column?, hposition, Schema.columnAt_eq_ok_iff.2 hc]
    rfl
  have hindex : t.hasIndex c.name = .ok c.isIndexed := by
    rw [Table.hasIndex, hcolumn]
    rfl
  rw [hasValue, hindex, ok_bind]
  by_cases hindexed : c.isIndexed = true
  · obtain ⟨found, hfound, hsome⟩ := find_eq h hc hindexed (v := v)
    rw [if_pos hindexed, hfound, anyCell_allRows h hi, ← hsome]
    rfl
  · rw [if_neg hindexed, hposition]

theorem hasValue_eq_true_iff (h : t.Sound) : hasValue t column v = .ok true ↔
    ∃ (i : Nat) (r : Row),
      t.schema.columnNames[i]? = some column ∧ r ∈ t.allRows ∧ r[i]? = some v := by
  cases hposition : t.schema.position? column with
  | some i =>
    have hi := (Schema.position?_eq_some_iff h.listed h.proper.nodup).1 hposition
    rw [hasValue_eq_anyCell h hi, anyCell_allRows h hi, Except.ok.injEq, decide_eq_true_eq]
    constructor
    · rintro ⟨r, hr, hv⟩
      exact ⟨i, r, hi, hr, hv⟩
    · rintro ⟨j, r, hj, hr, hv⟩
      have hij := (Schema.position?_eq_some_iff h.listed h.proper.nodup).2 hj
      obtain rfl : i = j := Option.some.inj (hposition.symm.trans hij)
      exact ⟨r, hr, hv⟩
  | none =>
    have hcolumn : t.schema.column? column = .ok none := by simp only [Schema.column?, hposition]
    have hindex : t.hasIndex column = .ok false := by
      rw [Table.hasIndex, hcolumn]
      rfl
    rw [hasValue, hindex, ok_bind, hposition]
    constructor
    · intro hfalse
      cases hfalse
    · rintro ⟨i, r, hi, -⟩
      rw [(Schema.position?_eq_some_iff h.listed h.proper.nodup).2 hi] at hposition
      cases hposition

/-- A row reaches the column of a foreign key, and the table that the key refers to is found and
has the row's value in some row of the column that the key refers to. -/
def HasParent (db : Database) (s : Schema) (row : Row) (k : ForeignKey) : Prop :=
  ∃ (i : Nat) (v : Value) (parent : Table) (j : Nat) (r : Row),
    s.columnNames[i]? = some k.column ∧ row[i]? = some v ∧
    db.found k.parent = .ok parent ∧ parent.schema.columnNames[j]? = some k.parentColumn ∧
    r ∈ parent.allRows ∧ r[j]? = some v

theorem Untouched.hasParent_iff (h : Untouched db db') :
    HasParent db' s row k ↔ HasParent db s row k := by
  unfold HasParent
  simp only [h.found]

theorem hasParent_iff (hs : s.Listed) (hn : s.columnNames.Nodup) (hdb : db.Registered) :
    HasParent db s row k ↔ ∃ (i : Nat) (v : Value) (parent : Table),
      s.position? k.column = some i ∧ row[i]? = some v ∧ db.found k.parent = .ok parent ∧
        hasValue parent k.parentColumn v = .ok true := by
  constructor
  · rintro ⟨i, v, parent, j, r, hi, hv, hp, hj, hr, hrv⟩
    have hsound := (hdb.isSound_of_found hp).sound
    exact ⟨i, v, parent, (Schema.position?_eq_some_iff hs hn).2 hi, hv, hp,
      (hasValue_eq_true_iff hsound).2 ⟨j, r, hj, hr, hrv⟩⟩
  · rintro ⟨i, v, parent, hi, hv, hp, hvalue⟩
    have hsound := (hdb.isSound_of_found hp).sound
    obtain ⟨j, r, hj, hr, hrv⟩ := (hasValue_eq_true_iff hsound).1 hvalue
    exact ⟨i, v, parent, j, r, (Schema.position?_eq_some_iff hs hn).1 hi, hv, hp, hj, hr, hrv⟩

theorem checkParents_cons (name : String) (s : Schema) (row : Row) (k : ForeignKey)
    (rest : List ForeignKey) : checkParents name s row (k :: rest) = (do
      checkParents name s row [k]
      checkParents name s row rest) := by
  simp only [checkParents]
  cases hi : s.position? k.column with
  | none => rfl
  | some i =>
    cases hv : row[i]? with
    | none =>
      simp only [hv]
      rfl
    | some v =>
      simp only [hv, bind_assoc]
      refine bind_congr fun parent => bind_congr fun found => ?_
      cases found <;> rfl

theorem run_checkParents_one (hs : s.Listed) (hn : s.columnNames.Nodup) (hdb : db.Registered) :
    ((checkParents name s row [k]).run.run db).1 = .ok () ↔ HasParent db s row k := by
  rw [hasParent_iff hs hn hdb, checkParents]
  cases hi : s.position? k.column with
  | none => simp
  | some i =>
    cases hv : row[i]? with
    | none => simp [hv]
    | some v =>
      obtain ⟨db₁, hrun, -⟩ := run_table_found k.parent db
      simp only [hv, run_bind, run_tryCatch, hrun, Option.some.injEq, exists_eq_left',
        exists_and_left]
      cases hp : db.found k.parent with
      | error e =>
        simp only [reduceCtorEq, false_and, exists_false, iff_false]
        by_cases hclass : e.errorClass = .tableNotFound <;> simp [hclass]
      | ok parent =>
        simp only [run_lift, Except.ok.injEq, exists_eq_left']
        cases hvalue : hasValue parent k.parentColumn v with
        | error e => simp
        | ok found =>
          cases found with
          | true => exact iff_of_true rfl rfl
          | false => simp

theorem run_checkParents_iff (hs : s.Listed) (hn : s.columnNames.Nodup) (hdb : db.Registered)
    (keys : List ForeignKey) :
    ((checkParents name s row keys).run.run db).1 = .ok () ↔
      ∀ k ∈ keys, HasParent db s row k := by
  induction keys generalizing db with
  | nil => exact iff_of_true rfl fun k hk => absurd hk List.not_mem_nil
  | cons k rest ih =>
    have hone : ((checkParents name s row [k]).run.run db).1 = .ok () ↔ HasParent db s row k :=
      run_checkParents_one hs hn hdb
    rw [List.forall_mem_cons, checkParents_cons, run_bind, ← hone]
    rcases hrun : (checkParents name s row [k]).run.run db with ⟨e | ⟨⟩, db₁⟩
    · simp
    · -- the look for the first parent has only loaded a table
      have hloads : OnlyLoads db db₁ :=
        (loads_checkParents name s row [k] db).of_ok (.refl db) hrun
      have hdb₁ : db₁.Registered := ((safe_checkParents name s row [k]).of_ok hdb hrun).2
      simp only [ih hdb₁, hloads.untouched.hasParent_iff, true_and]

/-- A row of any length and any values passes the check exactly if it has a parent for each
foreign key of the table. In each of these tables the value is looked for with the same result by
an index and by going through the rows. The check changes no file and no table; at most it loads
tables from their files. -/
theorem checkForeignKeys_iff (hdb : db.Registered) (ht : db.found name = .ok t) (row : Row) :
    let checked := (checkForeignKeys name row).run.run db
    (checked.1 = .ok () ↔ ∀ k ∈ t.schema.foreignKeys, HasParent db t.schema row k) ∧
    (∀ n parent column, db.found n = .ok parent → ∀ i : Nat,
      parent.schema.columnNames[i]? = some column →
        ∀ v, hasValue parent column v = anyCell i v parent.allRows) ∧
    OnlyLoads db checked.2 ∧ ∀ n, checked.2.found n = db.found n := by
  intro checked
  have hsound := (hdb.isSound_of_found ht).sound
  obtain ⟨db₁, hrun, huntouched, -⟩ := run_table_found name db
  rw [ht] at hrun
  have hdb₁ : db₁.Registered := ((safe_table name).of_ok hdb hrun).2
  have hloads : OnlyLoads db checked.2 :=
    (loads_checkForeignKeys name row db db (.refl db)).of_both
  refine ⟨?_, fun n parent column hparent i hi v => ?_, hloads, hloads.untouched.found⟩
  · show ((checkForeignKeys name row).run.run db).1 = .ok () ↔ _
    rw [checkForeignKeys, run_bind, hrun]
    show ((checkParents name t.schema row t.schema.foreignKeys).run.run db₁).1 = .ok () ↔ _
    rw [run_checkParents_iff hsound.listed hsound.proper.nodup hdb₁]
    simp only [huntouched.hasParent_iff]
  · exact hasValue_eq_anyCell (hdb.isSound_of_found hparent).sound hi v

def staffKeys : List ForeignKey := [⟨"boss", "staff", "id"⟩, ⟨"team", "teams", "code"⟩]

def office : Database :=
  (fresh default .empty).afterRequests
    [.create "teams" [⟨"id", .int, true, false⟩, .plain "code" .text] [],
      .create "staff" [⟨"id", .int, true, false⟩, .plain "boss" .int, .plain "team" .text] staffKeys,
      .insert "teams" [.int 1, .text "red"], .insert "staff" [.int 1, .int 1, .text "red"]]

/-- A second member of staff may join the team, but none whose team is no text. -/
theorem checkForeignKeys_iff_staff :
    ∃ t, office.found "staff" = .ok t ∧ t.schema.foreignKeys = staffKeys ∧
      (∀ k ∈ staffKeys, HasParent office t.schema [.int 2, .int 1, .text "red"] k) ∧
      ¬ ∀ k ∈ staffKeys, HasParent office t.schema [.int 2, .int 1, .int 1] k := by
  have hoffice : office.Registered := registered_afterRequests (registered_fresh default .empty) _
  have hkeys : (office.found "staff").map (·.schema.foreignKeys) = .ok staffKeys := by
    decide +kernel
  have hpasses :
      ((checkForeignKeys "staff" [.int 2, .int 1, .text "red"]).run.run office).1 = .ok () := by
    decide +kernel
  have hfails :
      ((checkForeignKeys "staff" [.int 2, .int 1, .int 1]).run.run office).1 ≠ .ok () := by
    decide +kernel
  cases ht : office.found "staff" with
  | error e =>
    rw [ht] at hkeys
    cases hkeys
  | ok t =>
    rw [ht] at hkeys
    have hkeys : t.schema.foreignKeys = staffKeys := Except.ok.inj hkeys
    rw [← hkeys]
    refine ⟨t, rfl, rfl, (checkForeignKeys_iff hoffice ht _).1.1 hpasses, fun hall => ?_⟩
    exact hfails ((checkForeignKeys_iff hoffice ht _).1.2 hall)

end Database
end RelStore
