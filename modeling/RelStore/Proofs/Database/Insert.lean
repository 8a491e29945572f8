import RelStore.Proofs.Database.Found
import RelStore.Proofs.Database.Saves

/-! Insertions that fail. One that is refused changes nothing. One whose row is accepted but
cannot be saved leaves the row in memory, where later statements find it. -/
namespace RelStore

theorem Table.insert_again {t u : Table} {row : Row} (h : t.insert row = .ok u) :
    ∃ key, row[t.keyPosition]? = some key ∧ t.row? key = none ∧ u.row? key = some row ∧
      u.insert row = .error (.takenKey key) := by
  obtain ⟨htypes, key, indexes, hkey, hnone, -, -, rfl⟩ := insert_eq_ok_iff.1 h
  have hcheck : t.schema.checkRow row = .ok () := Schema.checkRow_eq_ok_iff.2 htypes
  have hcell : Row.cell row t.keyPosition = .ok key := Row.cell_eq_ok_iff.2 hkey
  have hrow : (t.rows.insert key row).get? key = some row := by
    rw [ValueMap.get?_insert, if_pos rfl]
  have hrefused : ensure ((t.rows.insert key row).contains key = false) (.takenKey key) =
      .error (.takenKey key) := by
    rw [ensure, ValueMap.contains, hrow]
    rfl
  refine ⟨key, hkey, hnone, hrow, ?_⟩
  simp only [insert, hcheck, hcell]
  show (ensure _ _ >>= _ : Except Error Table) = _
  rw [hrefused]
  rfl

theorem Table.ne_of_insert {t u : Table} {row : Row} (h : t.insert row = .ok u) : u ≠ t := by
  obtain ⟨key, -, hnone, hrow, -⟩ := insert_again h
  rintro rfl
  cases hnone.symm.trans hrow

namespace Database
variable {device : Disk.Device} {name : String} {row : Row} {db db' : Database} {t u : Table}
  {e : Error}

/-- Adds a row to a table that is saved on a device. -/
def insertOn (device : Disk.Device) (name : String) (row : Row) : Action Outcome := do
  let t ← insertKept name row
  saveOn device t
  pure .inserted

theorem insertOn_willing : insertOn .willing = insert := rfl

theorem run_insertOn_error (h : (insertOn device name row).run.run db = (.error e, db')) :
    ((∀ t u, db.found name = .ok t → t.insert row ≠ .ok u) ∧ Untouched db db') ∨
      ∃ (t u : Table) (db₁ : Database), db.found name = .ok t ∧ t.insert row = .ok u ∧
        db₁.disk = db.disk ∧ db₁.settings = db.settings ∧
        (∀ n, n ≠ name → db₁.loaded.lookup n = db.loaded.lookup n) ∧
        (saveOn device u).run.run { db₁ with loaded := putTable name u db₁.loaded } =
          (.error e, db') := by
  obtain ⟨db₁, hrun, huntouched, -, hothers, -⟩ := run_table_found name db
  rw [insertOn, insertKept, run_bind, run_bind, hrun] at h
  cases hfound : db.found name with
  | error e' =>
    rw [hfound] at h
    cases h
    refine .inl ⟨fun t u ht => ?_, huntouched⟩
    cases ht
  | ok t =>
    rw [hfound] at h
    simp only [run_bind, run_lift] at h
    cases hinsert : t.insert row with
    | error e' =>
      rw [hinsert] at h
      cases h
      refine .inl ⟨fun t' u ht' => ?_, huntouched⟩
      cases ht'
      rw [hinsert]
      intro hu
      cases hu
    | ok u =>
      rw [hinsert] at h
      simp only [run_keep, run_pure] at h
      rcases hsave : (saveOn device u).run.run
        { db₁ with loaded := putTable name u db₁.loaded } with ⟨_ | _, db₂⟩
      · rw [hsave] at h
        cases h
        exact .inr ⟨t, u, db₁, rfl, hinsert, huntouched.disk, huntouched.settings, hothers, hsave⟩
      · rw [hsave] at h
        cases h

theorem run_insertOn_refused (device : Disk.Device) (hkept : db.loaded.lookup name = some u)
    (h : u.insert row = .error e) : (insertOn device name row).run.run db = (.error e, db) := by
  rw [insertOn, insertKept, run_bind, run_bind, run_table, hkept]
  simp only [run_bind, run_lift, h]

/-- What an insertion that fails leaves, whatever the device of its save refuses. Nothing has
changed exactly if the row was not accepted. If it was, only the save failed: then the table in
memory has the row, and the same insertion is from then on refused for it. The files are as they
were, unless the new file was put in its place and the directory could not be synchronized behind
that; then the file has the row, too. -/
theorem insertOn_failed (h : (insertOn device name row).run.run db = (.error e, db')) :
    (Untouched db db' ↔ ∀ t u, db.found name = .ok t → t.insert row ≠ .ok u) ∧
      ∀ t u, db.found name = .ok t → t.insert row = .ok u →
        e.kind = .io ∧ db'.found name = .ok u ∧
        (∀ n, n ≠ name → db'.loaded.lookup n = db.loaded.lookup n) ∧
        (∃ key, row[t.keyPosition]? = some key ∧ ∀ device,
          (insertOn device name row).run.run db' = (.error (.takenKey key), db')) ∧
        ((∃ d, written device u db = (.error e, d)) ∧ Disk.SameNodes db.disk db'.disk ∨
          written device u db = (.ok (), db'.disk) ∧ e = .io ∧
            db.settings.durability.requiresSync = true ∧
            ∃ q, db'.disk.placeOf? (tableFile u.name) = some q ∧
              Disk.Replaces q (Document.ofTable u).encode db.disk db'.disk) := by
  rcases run_insertOn_error h with
    ⟨hrefused, huntouched⟩ | ⟨t, u, db₁, hfound, hinsert, hdisk, hsettings, hothers, hsave⟩
  · refine ⟨⟨fun _ => hrefused, fun _ => huntouched⟩, ?_⟩
    intro t u hfound hinsert
    exact absurd hinsert (hrefused t u hfound)
  · obtain ⟨key, hkey, -, -, hagain⟩ := Table.insert_again hinsert
    -- however the save failed, it has not changed the memory
    obtain ⟨hloaded, hkind, hfiles⟩ := run_saveOn_error hsave
    have hkept : db'.loaded.lookup name = some u := by
      rw [hloaded, lookup_putTable, if_pos rfl]
    have hfound' : db'.found name = .ok u := found_of_lookup hkept
    refine ⟨⟨fun huntouched => ?_, fun hrefused => ?_⟩, ?_⟩
    · -- the row is in the one table and not in the other
      have hok := (hfound'.symm.trans (huntouched.found name)).trans hfound
      exact absurd (Except.ok.inj hok) (Table.ne_of_insert hinsert)
    · exact absurd hinsert (hrefused t u hfound)
    · intro t' u' ht' hu'
      obtain rfl : t = t' := Except.ok.inj (hfound.symm.trans ht')
      obtain rfl : u = u' := Except.ok.inj (hinsert.symm.trans hu')
      refine ⟨hkind, hfound', fun n hn => ?_, ⟨key, hkey, fun device => ?_⟩, ?_⟩
      · rw [hloaded, lookup_putTable, if_neg hn, hothers n hn]
      · exact run_insertOn_refused device hkept hagain
      · have hwritten : written device u db₁ = written device u db := written_congr hdisk hsettings
        rcases hfiles with ⟨⟨d, hd⟩, hsame⟩ | ⟨hd, he, hsync⟩
        · exact .inl ⟨⟨d, hwritten.symm.trans hd⟩, hdisk ▸ hsame⟩
        · have hd := hwritten.symm.trans hd
          exact .inr ⟨hd, he, hsettings ▸ hsync, (find_of_written hd).2⟩

def vacant : Database :=
  (opened default).after [.execute "CREATE TABLE t (id INT PRIMARY KEY)" fun _ => false]

theorem insertOn_failed_unsettled :
    ∃ db' u, (insertOn unsettled "t" [.int 1]).run.run vacant = (.error .io, db') ∧
      db'.found "t" = .ok u ∧ u.row? (.int 1) = some [.int 1] ∧
      ∃ key, (insertOn .willing "t" [.int 1]).run.run db' = (.error (.takenKey key), db') := by
  have herror : ((insertOn unsettled "t" [.int 1]).run.run vacant).1 = .error .io := by
    decide +kernel
  have hrow : ((vacant.found "t").bind fun t => t.insert [.int 1]).map (·.row? (.int 1)) =
      .ok (some [.int 1]) := by decide +kernel
  have hrun : (insertOn unsettled "t" [.int 1]).run.run vacant = (.error .io, _) :=
    Prod.ext herror rfl
  obtain ⟨-, hfailed⟩ := insertOn_failed hrun
  cases hfound : vacant.found "t" with
  | error e =>
    rw [hfound] at hrow
    cases hrow
  | ok t =>
    cases hinsert : t.insert [.int 1] with
    | error e =>
      simp only [hfound, Except.bind, hinsert] at hrow
      cases hrow
    | ok u =>
      simp only [hfound, Except.bind, hinsert, Except.map, Except.ok.injEq] at hrow
      obtain ⟨-, hkept, -, ⟨key, -, hagain⟩, -⟩ := hfailed t u hfound hinsert
      exact ⟨_, u, hrun, hkept, hrow, key, hagain .willing⟩

def cutOff : Database := { vacant with disk := .blocked }

/-- The insertion is answered with an error. When the directory is there again, the row is
found, refused as taken, and counted among the rows that the next insertion saves. -/
theorem insert_cutOff :
    let go := fun _ => false
    let tried := cutOff.submit "INSERT INTO t VALUES (1)" go
    let back : Database := { tried.2 with disk := .empty }
    tried.1 = .error .io ∧
      (cutOff.submit "SELECT * FROM t" go).1 = .ok (.selected ["id"] []) ∧
      (back.submit "SELECT * FROM t" go).1 = .ok (.selected ["id"] [[.int 1]]) ∧
      (back.submit "INSERT INTO t VALUES (1)" go).1 = .error (.takenKey (.int 1)) ∧
      (back.submit "INSERT INTO t VALUES (2)" go).2.trace.head? =
        some (.event (.saved "t" 2 "data/t.json")) := by
  decide +kernel

end Database
end RelStore
