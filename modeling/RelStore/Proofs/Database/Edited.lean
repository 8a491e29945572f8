import RelStore.Proofs.Database.Ensures
import RelStore.Proofs.Database.Requests
import RelStore.Proofs.Document.Valid

/-! Tables made of schemas whose columns were edited without being listed anew. Foreign keys
are then judged by the names that were listed before, though the table that is made lists its
columns anew, and its file is judged by the columns that it has. -/
namespace RelStore

namespace Schema
variable {s : Schema}

theorem check_iff : s.check = .ok () ↔
    s.columns ≠ [] ∧ s.Proper ∧ ∀ k ∈ s.foreignKeys, k.column ∈ s.answering := by
  rw [check_eq_ok_iff, checkForeignKeys_eq_ok_iff]

theorem check_relist_iff : s.relist.check = .ok () ↔
    s.columns ≠ [] ∧ s.Proper ∧ ∀ k ∈ s.foreignKeys, k.column ∈ s.columnNames := by
  have hproper : s.relist.Proper ↔ s.Proper := ⟨fun h => ⟨h.1, h.2⟩, fun h => ⟨h.1, h.2⟩⟩
  rw [check_iff, s.listed_relist.answering, hproper]
  rfl

end Schema

theorem Table.create_exists_iff {s : Schema} : (∃ t, create s = .ok t) ↔ s.check = .ok () := by
  constructor
  · rintro ⟨t, ht⟩
    exact (create_eq_ok_iff.1 ht).1
  · intro hs
    obtain ⟨t, ht, -⟩ := create_exists hs
    exact ⟨t, ht⟩

namespace Database
variable {s : Schema} {t : Table} {db db' : Database}

/-- A name that can stand for a table, a table of the schema, and its document in its file. -/
structure Stored (s : Schema) (t : Table) (db : Database) : Prop where
  named : isName s.name = true
  created : Table.create s = .ok t
  file : db.disk.find (tableFile t.name) = .node (.file (Document.ofTable t).encode)

theorem blind_stored : Blind (Stored s t) := fun _ _ h => ⟨h.named, h.created, h.file⟩

theorem ensures_stored (s : Schema) :
    Ensures (fun _ => True) (create s) (Stored s) fun _ _ => True := by
  unfold create
  refine (ensures_lift_eq _ fun _ _ _ => trivial).bind fun _ => ?_
  refine (ensures_lift_eq _ fun _ _ _ => trivial).bind fun _ => ?_
  refine (ensures_lift_eq _ fun _ _ _ => trivial).bind fun t => ?_
  refine Ensures.of_common (F := isName s.name = true ∧ Table.create s = .ok t)
    (fun _ h => ⟨ensure_eq_ok_iff.1 h.2.2.1, h.1⟩) fun ⟨hname, ht⟩ => ?_
  refine ensures_get fun db => ?_
  cases db.hasTable t.name with
  | true => exact ensures_throw fun _ _ => trivial
  | false =>
    have hplain : Disk.IsPlain (tableFile t.name) := by
      have hschema := congrArg Schema.name (Table.create_schema ht).2
      exact isPlain_tableFile (show isName t.schema.name = true from hschema ▸ hname)
    have hsave : Ensures (fun _ => True) (save t) (fun _ => Stored s t) fun _ _ => True := by
      intro db _
      rcases hrun : (save t).run.run db with ⟨e | ⟨⟨⟩⟩, db'⟩
      · trivial
      · exact ⟨hname, ht, find_of_run_save hplain hrun⟩
    have hkeep : Ensures (fun _ => True) (keep t.name t) (fun _ _ => True) fun _ _ => True :=
      ensures_modify fun _ h => h
    refine (hkeep.strengthen fun _ _ => trivial).bind fun _ => ?_
    have hdrop : ∀ e : Error, Ensures (fun _ => True) (do drop t.name; throw e)
        (fun (_ : Unit) => Stored s t) fun _ _ => True := fun e =>
      Ensures.bind (Q := fun _ _ => True) (ensures_modify fun _ h => h) fun _ =>
        ensures_throw fun _ h => h
    refine (hsave.tryCatch hdrop).bind fun _ => ?_
    exact (ensures_report blind_stored _).bind fun _ => ensures_pure fun _ h => h

theorem check_ofTable_iff (h : Table.create s = .ok t) :
    (Document.ofTable t).schema.check = .ok () ↔
      ∀ k ∈ s.foreignKeys, k.column ∈ s.columnNames := by
  obtain ⟨hcolumns, hproper, -⟩ := Schema.check_iff.1 (Table.create_exists_iff.1 ⟨t, h⟩)
  rw [Document.schema_ofTable (Table.create_sound h).listed, (Table.create_schema h).2,
    Schema.check_relist_iff]
  constructor
  · rintro ⟨-, -, hkeys⟩
    exact hkeys
  · intro hkeys
    exact ⟨hcolumns, hproper, hkeys⟩

theorem Stored.load (h : Stored s t db) :
    ((∀ k ∈ s.foreignKeys, k.column ∈ s.columnNames) →
      ((load s.name).run.run db).1 = .ok t) ∧
    ((∃ k ∈ s.foreignKeys, k.column ∉ s.columnNames) →
      ∃ e, ((load s.name).run.run db).1 = .error e ∧ e.errorClass = .corruption) := by
  have hsound := Table.create_sound h.created
  have hname : t.name = s.relist.name := congrArg Schema.name (Table.create_schema h.created).2
  rw [← s.name_relist, ← hname, fst_run_load, readTable_of_find h.file]
  constructor
  · intro hkeys
    have hcheck := (check_ofTable_iff h.created).2 hkeys
    rw [Document.schema_ofTable hsound.listed] at hcheck
    exact Document.toTable_ofTable hsound hcheck _
  · rintro ⟨k, hk, hcolumn⟩
    cases htable : (Document.ofTable t).toTable (db.settings.tablePath t.name) t.name with
    | ok u =>
      obtain ⟨rows, hvalid, -⟩ := Document.toTable_eq_ok_iff.1 htable
      have hcheck : (Document.ofTable t).schema.check = .ok () :=
        Document.check_schema_iff.2
          ⟨hvalid.columns, hvalid.nodup, hvalid.primary, hvalid.foreignKeys⟩
      exact absurd ((check_ofTable_iff h.created).1 hcheck k hk) hcolumn
    | error e => exact ⟨e, rfl, Document.errorClass_of_toTable htable⟩

/-- Whatever names a schema lists, a table is made of it exactly if it has columns of different
names, exactly one of them its primary key and that one not also unique, and if its foreign keys
start from names that answer for the columns. These are the names of the columns where they are
listed, and where the number of listed names shows that they are not. A schema that has its
columns listed anew is judged by its columns alone. So a table that is made and saved can be
loaded again exactly if its foreign keys start from its columns. -/
theorem create_answering (s : Schema) :
    ((∃ t, Table.create s = .ok t) ↔
      s.columns ≠ [] ∧ s.Proper ∧ ∀ k ∈ s.foreignKeys, k.column ∈ s.answering) ∧
    ((∃ t, Table.create ((Schema.ofColumns s.name s.columns).withForeignKeys s.foreignKeys) =
        .ok t) ↔
      s.columns ≠ [] ∧ s.Proper ∧ ∀ k ∈ s.foreignKeys, k.column ∈ s.columnNames) ∧
    (s.isListed = false ∨ s.Listed → s.answering = s.columnNames) ∧
    ∀ t db db', (create s).run.run db = (.ok t, db') →
      ((∀ k ∈ s.foreignKeys, k.column ∈ s.columnNames) →
        ((Database.load s.name).run.run db').1 = .ok t) ∧
      ((∃ k ∈ s.foreignKeys, k.column ∉ s.columnNames) →
        ∃ e, ((Database.load s.name).run.run db').1 = .error e ∧ e.errorClass = .corruption) := by
  refine ⟨?_, ?_, ?_, ?_⟩
  · rw [Table.create_exists_iff, Schema.check_iff]
  · exact Table.create_exists_iff.trans (Schema.check_relist_iff (s := s))
  · rintro (h | h)
    · exact Schema.answering_of_not_isListed h
    · exact h.answering
  · intro t db db' hrun
    exact ((ensures_stored s).of_ok trivial hrun).load

def renamed : Schema :=
  ⟨"t", [⟨"id", .int, true, false⟩, .plain "b" .int], [⟨"a", "u", "id"⟩], ["id", "a"]⟩

theorem create_answering_renamed :
    ∃ t db', (create renamed).run.run (fresh default .empty) = (.ok t, db') ∧
      ∃ e, ((Database.load "t").run.run db').1 = .error e ∧ e.errorClass = .corruption := by
  have hrun : ((create renamed).run.run (fresh default .empty)).1.isOk = true := by decide +kernel
  rcases hcreate : (create renamed).run.run (fresh default .empty) with ⟨e | t, db'⟩
  · rw [hcreate] at hrun
    cases hrun
  · obtain ⟨-, -, -, hload⟩ := create_answering renamed
    exact ⟨t, db', rfl, (hload t _ db' hcreate).2 ⟨_, List.mem_cons_self, by decide⟩⟩

/-- A table is made of a schema with a foreign key that starts from no column. -/
theorem create_not_by_columns :
    ¬ ∀ s : Schema, (∃ t, Table.create s = .ok t) ↔
      s.columns ≠ [] ∧ s.Proper ∧ ∀ k ∈ s.foreignKeys, k.column ∈ s.columnNames := by
  intro h
  have hcheck : renamed.check = .ok () := by decide +kernel
  obtain ⟨-, -, hkeys⟩ := (h renamed).1 (Table.create_exists_iff.2 hcheck)
  exact absurd (hkeys _ List.mem_cons_self) (by decide)

end Database
end RelStore
