import RelStore.Proofs.Database.Restart

/-! The tables that statements find, in memory or else in their files. -/
namespace RelStore
namespace Database
variable {name : String} {db db' : Database} {t : Table}

def found (db : Database) (name : String) : Except Error Table := ((table name).run.run db).1

theorem found_of_lookup (h : db.loaded.lookup name = some t) : db.found name = .ok t := by
  rw [found, run_table, h]

theorem found_of_lookup_eq_none (h : db.loaded.lookup name = none) :
    db.found name = readTable db.settings db.disk name := by
  rw [found, run_table, h]
  cases readTable db.settings db.disk name <;> rfl

/-- No statement can tell the databases apart. -/
structure Untouched (db db' : Database) : Prop where
  settings : db'.settings = db.settings
  disk : db'.disk = db.disk
  found : ∀ n, db'.found n = db.found n

theorem Untouched.refl : Untouched db db := ⟨rfl, rfl, fun _ => rfl⟩

theorem Untouched.with_trace (trace : Trace) : Untouched db { db with trace } := by
  refine ⟨rfl, rfl, fun n => ?_⟩
  cases hl : db.loaded.lookup n with
  | some t =>
    rw [found_of_lookup hl]
    exact found_of_lookup hl
  | none =>
    rw [found_of_lookup_eq_none hl]
    exact found_of_lookup_eq_none hl

theorem untouched_keep (hl : db.loaded.lookup name = none)
    (hr : readTable db.settings db.disk name = .ok t) (trace : Trace) :
    Untouched db { db with loaded := putTable name t db.loaded, trace } := by
  refine ⟨rfl, rfl, fun n => ?_⟩
  by_cases hn : n = name
  · subst hn
    rw [found_of_lookup_eq_none hl, hr]
    exact found_of_lookup (by rw [lookup_putTable, if_pos rfl])
  · have hsame : (putTable name t db.loaded).lookup n = db.loaded.lookup n := by
      rw [lookup_putTable, if_neg hn]
    cases hln : db.loaded.lookup n with
    | some v =>
      rw [found_of_lookup hln]
      exact found_of_lookup (hsame.trans hln)
    | none =>
      rw [found_of_lookup_eq_none hln]
      exact found_of_lookup_eq_none (hsame.trans hln)

/-- To look for a table changes nothing but that it is kept in memory. -/
theorem run_table_found (name : String) (db : Database) :
    ∃ db₁, (table name).run.run db = (db.found name, db₁) ∧ Untouched db db₁ ∧
      (∀ t, db.found name = .ok t → db₁.loaded.lookup name = some t) ∧
      (∀ n, n ≠ name → db₁.loaded.lookup n = db.loaded.lookup n) ∧
      db₁.trace.polls = db.trace.polls := by
  rw [found, run_table]
  cases hl : db.loaded.lookup name with
  | some t =>
    refine ⟨db, rfl, .refl, fun u hu => ?_, fun _ _ => rfl, rfl⟩
    cases hu
    exact hl
  | none =>
    cases hr : readTable db.settings db.disk name with
    | error e => exact ⟨db, rfl, .refl, nofun, fun _ _ => rfl, rfl⟩
    | ok t =>
      refine ⟨_, rfl, untouched_keep hl hr _, fun u hu => ?_, fun n hn => ?_,
        Trace.polls_event _ _⟩
      · cases hu
        rw [lookup_putTable, if_pos rfl]
      · rw [lookup_putTable, if_neg hn]

end Database
end RelStore
