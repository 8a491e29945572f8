import RelStore.Proofs.Database.Found

/-! Tables whose files hold what is in memory. A table that was changed is in step with its
file again once it is saved. -/
namespace RelStore
namespace Database
variable {db db' : Database} {t u : Table} {n : Nat}

/-- A statement finds the table under its name, and so does a load of its file. -/
structure InStep (db : Database) (t : Table) : Prop where
  found : db.found t.name = .ok t
  file : ((load t.name).run.run db).1 = .ok t

theorem Coherent.inStep (h : db.Coherent) {name : String}
    (hl : db.loaded.lookup name = some t) : t.name = name ∧ InStep db t := by
  obtain ⟨rfl, -, -⟩ := h.loaded name t hl
  exact ⟨rfl, found_of_lookup hl, (fst_run_load t.name db).trans (h.readTable hl)⟩

theorem InStep.readTable (h : InStep db t) : readTable db.settings db.disk t.name = .ok t :=
  (fst_run_load t.name db).symm.trans h.file

theorem InStep.of_untouched (h : InStep db t) (hdb : Untouched db db') : InStep db' t := by
  refine ⟨(hdb.found t.name).trans h.found, ?_⟩
  rw [fst_run_load, hdb.settings, hdb.disk, h.readTable]

theorem InStep.with_trace (h : InStep db t) (trace : Trace) : InStep { db with trace } t :=
  h.of_untouched (.with_trace trace)

structure Storable (t : Table) : Prop where
  sound : t.Sound
  checked : t.schema.check = .ok ()
  direct : Disk.IsDirect (tableFile t.name)

theorem InStep.reachable (h : InStep db t) : ∃ s : Schema, s.Listed ∧ Table.Reachable s t := by
  obtain ⟨bytes, d, -, -, hdoc⟩ := readTable_eq_ok_iff.1 h.readTable
  obtain ⟨_, -, hdoc⟩ := bind_eq_ok_iff.1 hdoc
  obtain ⟨_, -, hdoc⟩ := bind_eq_ok_iff.1 hdoc
  obtain ⟨rows, -, hrows⟩ := bind_eq_ok_iff.1 hdoc
  exact ⟨d.schema, Schema.listed_ofColumns _ _ _, .ofRows hrows⟩

theorem InStep.sound (h : InStep db t) : t.Sound := by
  obtain ⟨_, -, hreachable⟩ := h.reachable
  exact hreachable.sound

theorem InStep.checked (h : InStep db t) : t.schema.check = .ok () := by
  obtain ⟨s, hlisted, hreachable⟩ := h.reachable
  obtain ⟨hcheck, hschema⟩ := hreachable.schema
  rw [hlisted.relist_eq] at hschema
  exact hschema ▸ hcheck

theorem InStep.storable (h : InStep db t) (hn : Disk.IsPlain (tableFile t.name)) :
    Storable t := by
  obtain ⟨_, -, hfind, -, -⟩ := readTable_eq_ok_iff.1 h.readTable
  exact ⟨h.sound, h.checked, hn.direct_of_find hfind⟩

theorem InStep.saves (h : InStep db t) (hn : Disk.IsPlain (tableFile t.name))
    (bytes : List UInt8) : (db.disk.save (tableFile t.name) bytes).1 = true := by
  obtain ⟨_, -, hfind, -, -⟩ := readTable_eq_ok_iff.1 h.readTable
  have hd := hn.direct_of_find hfind
  obtain ⟨hroot, hfile⟩ := hd.node?_of_find hfind
  have hmake : db.disk.makeDirectory = some db.disk :=
    Disk.makeDirectory_eq_some_iff.2 (.inl ⟨hroot, rfl⟩)
  rw [hd.save_eq hmake]
  rw [hfile]
  nofun

theorem Storable.of_schema (h : Storable t) (hu : u.Sound) (hs : u.schema = t.schema) :
    Storable u ∧ u.name = t.name := by
  have hn : u.name = t.name := congrArg Schema.name hs
  exact ⟨⟨hu, hs ▸ h.checked, hn ▸ h.direct⟩, hn⟩

/-- A table in memory is saved where a table of its name was read. -/
theorem save_inStep (hu : Storable u) (hl : db.loaded.lookup u.name = some u)
    (hr : readTable db.settings db.disk u.name = .ok t) :
    ∃ db', (save u).run.run db = (.ok (), db') ∧ InStep db' u ∧
      db'.trace.polls = db.trace.polls := by
  obtain ⟨bytes, -, hfind, -, -⟩ := readTable_eq_ok_iff.1 hr
  obtain ⟨hroot, hfile⟩ := hu.direct.node?_of_find hfind
  have hsave : (save u).run.run db = (.ok (), saved u db) :=
    run_save_eq_saved hu.direct hroot (by rw [hfile]; nofun)
  refine ⟨saved u db, hsave, ⟨found_of_lookup hl, ?_⟩, Trace.polls_event _ _⟩
  rw [fst_run_load]
  exact readTable_of_save hu.sound hu.checked hu.direct.toIsPlain hsave

/-- The end of a change of rows: what was changed is saved, and what was not is as before. -/
theorem settle_inStep (ht : Storable t) (hin : InStep db t) (hu : u.Sound)
    (hs : u.schema = t.schema) (hsame : n = 0 → u = t) (result : Except Error Unit) :
    ∃ db', (settle t.name result u n).run.run db = (result.map fun _ => n, db') ∧
      InStep db' u ∧ db'.trace.polls = db.trace.polls := by
  obtain ⟨hu, hn⟩ := ht.of_schema hu hs
  rw [← hn]
  let kept : Database := { db with loaded := putTable u.name u db.loaded }
  have hkept : kept.loaded.lookup u.name = some u := by
    rw [lookup_putTable, if_pos rfl]
  have hread : readTable kept.settings kept.disk u.name = .ok t := hn ▸ hin.readTable
  obtain ⟨db', hsave, hstep, hpolls⟩ := save_inStep hu hkept hread
  unfold settle
  rw [run_bind, run_keep]
  cases result with
  | ok a =>
    refine ⟨db', ?_, hstep, hpolls⟩
    show (save u >>= _ : Action Nat).run.run kept = _
    rw [run_bind, hsave]
    rfl
  | error e =>
    by_cases hpos : 0 < n
    · refine ⟨db', ?_, hstep, hpolls⟩
      simp only [hpos, if_true]
      show (save u >>= _ : Action Nat).run.run kept = _
      rw [run_bind, hsave]
      rfl
    · have hut : u = t := hsame (by omega)
      simp only [hpos, if_false]
      refine ⟨kept, rfl, ⟨found_of_lookup hkept, ?_⟩, rfl⟩
      rw [fst_run_load, hread, hut]

end Database
end RelStore
