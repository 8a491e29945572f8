import RelStore.Proofs.Database.Requests

/-! Tables that are loaded from files of any content. A table comes of the valid documents
alone, and then it has just their rows; all other contents are damage. -/
namespace RelStore
namespace Database
variable {db db' : Database} {name path : String} {bytes : List UInt8} {t : Table} {e : Error}

/-- The table of the bytes of a file, at a path and under the file name of some table. -/
def tableOfBytes (path name : String) (bytes : List UInt8) : Except Error Table :=
  match Document.decode? bytes with
  | none => .error (.unreadableFile path)
  | some d => d.toTable path name

theorem tableOfBytes_exists_iff : (∃ t, tableOfBytes path name bytes = .ok t) ↔
    ∃ d rows, Document.decode? bytes = some d ∧ d.Valid name rows := by
  unfold tableOfBytes
  constructor
  · rintro ⟨t, h⟩
    cases hd : Document.decode? bytes with
    | none =>
      rw [hd] at h
      cases h
    | some d =>
      rw [hd] at h
      obtain ⟨rows, hvalid, -⟩ := Document.valid_of_toTable h
      exact ⟨d, rows, rfl, hvalid⟩
  · rintro ⟨d, rows, hd, hvalid⟩
    rw [hd]
    exact hvalid.toTable_exists path

theorem tableOfBytes_rows (h : tableOfBytes path name bytes = .ok t) :
    ∃ d rows, Document.decode? bytes = some d ∧ d.Valid name rows ∧ t.IsSound name ∧
      t.schema = d.schema ∧ t.allRows.Perm rows := by
  unfold tableOfBytes at h
  cases hd : Document.decode? bytes with
  | none =>
    rw [hd] at h
    cases h
  | some d =>
    rw [hd] at h
    obtain ⟨rows, ht⟩ := Document.valid_of_toTable h
    exact ⟨d, rows, rfl, ht⟩

theorem errorClass_of_tableOfBytes (h : tableOfBytes path name bytes = .error e) :
    e.errorClass = .corruption := by
  unfold tableOfBytes at h
  split at h
  · cases h
    rfl
  · exact Document.errorClass_of_toTable h

theorem readTable_of_file {settings : Settings} {disk : Disk}
    (h : disk.find (tableFile name) = .node (.file bytes)) :
    readTable settings disk name = tableOfBytes (settings.tablePath name) name bytes := by
  rw [readTable, h]
  rfl

theorem tableOfBytes_of_load (hfile : db.disk.find (tableFile name) = .node (.file bytes))
    (h : (load name).run.run db = (.ok t, db')) :
    tableOfBytes (db.settings.tablePath name) name bytes = .ok t := by
  rw [run_load, readTable_of_file hfile] at h
  cases ht : tableOfBytes (db.settings.tablePath name) name bytes with
  | error e =>
    rw [ht] at h
    cases h
  | ok u =>
    rw [ht] at h
    cases h
    rfl

theorem tableOfBytes_of_load_error (hfile : db.disk.find (tableFile name) = .node (.file bytes))
    (h : (load name).run.run db = (.error e, db')) :
    tableOfBytes (db.settings.tablePath name) name bytes = .error e ∧ db' = db := by
  rw [run_load, readTable_of_file hfile] at h
  cases ht : tableOfBytes (db.settings.tablePath name) name bytes with
  | error e' =>
    rw [ht] at h
    cases h
    exact ⟨rfl, rfl⟩
  | ok t =>
    rw [ht] at h
    cases h

/-- The load of a table from a file checks all of its content. It succeeds if the bytes are
a document of the table of that name, with a schema that a table can have, with a value in
every cell, and with rows that fit the columns and differ in every primary or unique one.
The table then has just these rows, and its indexes agree with them. Any other content is
reported as damage, and changes nothing. So whatever was done to a database and to its
files, each table in memory is sound and has the name under which it is kept. -/
theorem load_validates (hfile : db.disk.find (tableFile name) = .node (.file bytes)) :
    ((∃ t db', (load name).run.run db = (.ok t, db')) ↔
      ∃ d rows, Document.decode? bytes = some d ∧ d.Valid name rows) ∧
    (∀ t db', (load name).run.run db = (.ok t, db') →
      ∃ d rows, Document.decode? bytes = some d ∧ d.Valid name rows ∧ t.IsSound name ∧
        t.schema = d.schema ∧ t.allRows.Perm rows) ∧
    (∀ e db', (load name).run.run db = (.error e, db') → e.errorClass = .corruption ∧ db' = db) ∧
    ∀ settings disk rs, ((fresh settings disk).afterRequests rs).Registered := by
  refine ⟨⟨?_, ?_⟩, ?_, ?_, fun settings disk rs =>
    registered_afterRequests (registered_fresh settings disk) rs⟩
  · rintro ⟨t, db', h⟩
    exact tableOfBytes_exists_iff.1 ⟨t, tableOfBytes_of_load hfile h⟩
  · intro h
    obtain ⟨t, ht⟩ : ∃ t, tableOfBytes (db.settings.tablePath name) name bytes = .ok t :=
      tableOfBytes_exists_iff.2 h
    exact ⟨t, _, by rw [run_load, readTable_of_file hfile, ht]⟩
  · intro t db' h
    exact tableOfBytes_rows (tableOfBytes_of_load hfile h)
  · intro e db' h
    obtain ⟨he, rfl⟩ := tableOfBytes_of_load_error hfile h
    exact ⟨errorClass_of_tableOfBytes he, rfl⟩

def loans : Document :=
  ⟨"loans", [⟨"id", .int, true, false⟩, ⟨"book", .text, false, false⟩],
    [[.ofValue (.int 2), .ofValue (.text "b")], [.ofValue (.int 1), .ofValue (.text "b")]],
    [⟨"book", "books", "title"⟩]⟩

theorem valid_loans : loans.Valid "loans" [[.int 2, .text "b"], [.int 1, .text "b"]] where
  named := rfl
  columns := nofun
  nodup := by decide
  primary := ⟨⟨"id", .int, true, false⟩, rfl, rfl⟩
  foreignKeys := by
    intro k hk
    cases List.mem_singleton.1 hk
    exact ⟨⟨"book", .text, false, false⟩, by decide, rfl⟩
  values := Document.allValues_eq_ok_iff.1
    (Document.allValues_ofValue [[.int 2, .text "b"], [.int 1, .text "b"]])
  typed := by decide
  unique := by
    rintro (_ | _ | i) c hc hi
    · decide
    · cases hc
      cases hi
    · cases hc

def library : Database :=
  fresh default ⟨[([], .folder), (["loans.json"], .file loans.encode)]⟩

theorem load_validates_loans :
    ∃ t db', (load "loans").run.run library = (.ok t, db') ∧ t.IsSound "loans" ∧
      t.schema = loans.schema ∧ t.allRows.Perm [[.int 2, .text "b"], [.int 1, .text "b"]] := by
  have hfile : library.disk.find (tableFile "loans") = .node (.file loans.encode) := by
    have hdirect : Disk.IsDirect (tableFile "loans") := ⟨isPlain_tableFile (by decide), by decide⟩
    rw [hdirect.find rfl]
    rfl
  have hdecode : Document.decode? loans.encode = some loans :=
    Document.decode?_encode ⟨[[.int 2, .text "b"], [.int 1, .text "b"]], rfl⟩
  obtain ⟨hok, hrows, -⟩ := load_validates hfile
  obtain ⟨t, db', h⟩ := hok.2 ⟨loans, _, hdecode, valid_loans⟩
  obtain ⟨d, rows, hd, hvalid, ht, hschema, hperm⟩ := hrows t db' h
  obtain rfl : loans = d := Option.some.inj (hdecode.symm.trans hd)
  have hvalues := Document.allValues_eq_ok_iff.2 hvalid.values
  rw [Document.allValues_eq_ok_iff.2 valid_loans.values] at hvalues
  cases hvalues
  exact ⟨t, db', h, ht, hschema, hperm⟩

end Database
end RelStore
