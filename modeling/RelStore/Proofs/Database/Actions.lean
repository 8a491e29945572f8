import RelStore.Database
import RelStore.Proofs.Disk

/-! What the parts of an action do to a database. -/
namespace RelStore
namespace Database
variable {α β : Type}

theorem run_bind (x : Action α) (f : α → Action β) (db : Database) :
    (x >>= f).run.run db = match x.run.run db with
      | (.ok a, db') => (f a).run.run db'
      | (.error e, db') => (.error e, db') := by
  rw [ExceptT.run_bind, StateT.run_bind]
  show (match x.run.run db with | (r, db') => _ : Except Error β × Database) = _
  rcases x.run.run db with ⟨_ | _, db'⟩ <;> rfl

theorem run_tryCatch (x : Action α) (f : Error → Action α) (db : Database) :
    (tryCatch x f).run.run db = match x.run.run db with
      | (.ok a, db') => (.ok a, db')
      | (.error e, db') => (f e).run.run db' := by
  rw [ExceptT.run_tryCatch, StateT.run_bind]
  show (match x.run.run db with | (r, db') => _ : Except Error α × Database) = _
  rcases x.run.run db with ⟨_ | _, db'⟩ <;> rfl

@[simp] theorem run_pure (a : α) (db : Database) :
    (pure a : Action α).run.run db = (.ok a, db) := rfl

@[simp] theorem run_throw (e : Error) (db : Database) :
    (throw e : Action α).run.run db = (.error e, db) := rfl

@[simp] theorem run_lift (x : Except Error α) (db : Database) :
    (liftM x : Action α).run.run db = (x, db) := by
  cases x <;> rfl

@[simp] theorem run_get (db : Database) : (get : Action Database).run.run db = (.ok db, db) := rfl

@[simp] theorem run_set (db db' : Database) :
    (set db' : Action PUnit).run.run db = (.ok ⟨⟩, db') := rfl

@[simp] theorem run_modify (f : Database → Database) (db : Database) :
    (modify f : Action PUnit).run.run db = (.ok ⟨⟩, f db) := rfl

@[simp] theorem run_report (e : Event) (db : Database) :
    (report e).run.run db = (.ok (), { db with trace := .event e :: db.trace }) := rfl

@[simp] theorem run_keep (name : String) (t : Table) (db : Database) :
    (keep name t).run.run db = (.ok (), { db with loaded := putTable name t db.loaded }) := rfl

@[simp] theorem run_watch (w : Watched α) (db : Database) :
    (watch w).run.run db =
      ((w.run.run db.trace).1, { db with trace := (w.run.run db.trace).2 }) := by
  rcases h : w.run.run db.trace with ⟨r, t⟩
  simp only [watch, run_bind, run_get, h]
  cases r <;> rfl

/-- A save either reports its success or fails. -/
theorem run_saveOn (device : Disk.Device) (t : Table) (db : Database) :
    (saveOn device t).run.run db =
      match db.disk.saveOn device db.settings.durability.requiresSync (tableFile t.name)
          (Document.ofTable t).encode with
      | (.ok (), disk) => (.ok (), { db with
          disk,
          trace := .event (.saved t.name t.size (db.settings.tablePath t.name)) :: db.trace })
      | (.error e, disk) => (.error e, { db with disk }) := by
  rw [saveOn, run_bind, run_get]
  rcases hsave : db.disk.saveOn device db.settings.durability.requiresSync (tableFile t.name)
    (Document.ofTable t).encode with ⟨_ | _, disk⟩ <;> simp only [hsave] <;> rfl

theorem run_save (t : Table) (db : Database) :
    (save t).run.run db =
      match db.disk.save (tableFile t.name) (Document.ofTable t).encode with
      | (true, disk) => (.ok (), { db with
          disk,
          trace := .event (.saved t.name t.size (db.settings.tablePath t.name)) :: db.trace })
      | (false, disk) => (.error .io, { db with disk }) := by
  rw [save, run_saveOn, Disk.saveOn_willing_eq]
  rcases db.disk.save (tableFile t.name) (Document.ofTable t).encode with ⟨_ | _, disk⟩ <;> rfl

/-- The table that is read from the file of a name. -/
def readTable (settings : Settings) (disk : Disk) (name : String) : Except Error Table :=
  match disk.find (tableFile name) with
  | .missing => .error (.noTable name)
  | .refused => .error .io
  | .node .folder => .error (.unreadableFile (settings.tablePath name))
  | .node (.file bytes) =>
    match Document.decode? bytes with
    | none => .error (.unreadableFile (settings.tablePath name))
    | some d => d.toTable (settings.tablePath name) name

theorem readTable_eq_ok_iff {settings : Settings} {disk : Disk} {name : String} {t : Table} :
    readTable settings disk name = .ok t ↔ ∃ bytes d,
      disk.find (tableFile name) = .node (.file bytes) ∧ Document.decode? bytes = some d ∧
        d.toTable (settings.tablePath name) name = .ok t := by
  unfold readTable
  cases disk.find (tableFile name) with
  | missing => simp
  | refused => simp
  | node n =>
    cases n with
    | folder => simp
    | file bytes => cases hd : Document.decode? bytes <;> simp [hd]

/-- A load reports the table that was read. -/
theorem run_load (name : String) (db : Database) :
    (load name).run.run db = match readTable db.settings db.disk name with
      | .ok t => (.ok t, { db with trace := .event (.loaded name t.size) :: db.trace })
      | .error e => (.error e, db) := by
  simp only [load, run_bind, run_get, readTable]
  cases db.disk.find (tableFile name) with
  | missing => rfl
  | refused => rfl
  | node n =>
    cases n with
    | folder => rfl
    | file bytes =>
      cases hd : Document.decode? bytes with
      | none =>
        simp only [hd]
        rfl
      | some d =>
        simp only [hd, run_bind, run_lift]
        cases d.toTable (db.settings.tablePath name) name <;> rfl

theorem fst_run_load (name : String) (db : Database) :
    ((load name).run.run db).1 = readTable db.settings db.disk name := by
  rw [run_load]
  cases readTable db.settings db.disk name <;> rfl

/-- A table comes from memory or else from its file. -/
theorem run_table (name : String) (db : Database) :
    (table name).run.run db = match db.loaded.lookup name with
      | some t => (.ok t, db)
      | none => match readTable db.settings db.disk name with
        | .ok t => (.ok t, { db with
            loaded := putTable name t db.loaded
            trace := .event (.loaded name t.size) :: db.trace })
        | .error e => (.error e, db) := by
  rw [table, run_bind, run_get]
  cases hl : db.loaded.lookup name with
  | some t =>
    simp only [hl]
    rfl
  | none =>
    simp only [hl, run_bind, run_load]
    cases readTable db.settings db.disk name <;> rfl

theorem lookup_putTable (name n : String) (t : Table) (l : List (String × Table)) :
    (putTable name t l).lookup n = if n = name then some t else l.lookup n := by
  induction l with
  | nil =>
    by_cases h : n = name
    · simp [putTable, h]
    · have hb : (n == name) = false := by simpa using h
      simp [putTable, List.lookup_cons, h, hb]
  | cons e rest ih =>
    obtain ⟨m, u⟩ := e
    simp only [putTable]
    by_cases hm : m = name
    · subst hm
      by_cases h : n = m
      · simp [h]
      · have hb : (n == m) = false := by simpa using h
        simp [List.lookup_cons, h, hb]
    · by_cases h : n = m
      · subst h
        simp [hm]
      · have hb : (n == m) = false := by simpa using h
        simp [List.lookup_cons, hm, hb, ih]

theorem lookup_drop (name n : String) (l : List (String × Table)) :
    (l.filter fun e => e.1 ≠ name).lookup n = if n = name then none else l.lookup n := by
  induction l with
  | nil => simp
  | cons e rest ih =>
    obtain ⟨m, u⟩ := e
    rw [List.filter_cons]
    by_cases hm : m = name
    · subst hm
      by_cases hn : n = m
      · simpa [hn] using ih
      · have hb : (n == m) = false := by simpa using hn
        simpa [List.lookup_cons, hb, hn] using ih
    · by_cases hn : n = m
      · subst hn
        simp [hm]
      · have hb : (n == m) = false := by simpa using hn
        simpa [List.lookup_cons, hb, hm] using ih

end Database
end RelStore
