import RelStore.Proofs.Database.Statements

/-! Every statement, read from any text, runs alike on two databases that are the same but
for what they keep in memory. -/
namespace RelStore
namespace Database
variable {R : Trace → Trace → Prop} {signal : Signal} {db db' : Database} {t : Table}

theorem alike_update (hR : Trace.Grows R) (hs : signal.Respects R) (name : String)
    (assignments : List (String × Value)) (c : Condition) :
    Alike R (Same R) (update name assignments c signal) fun _ => Same R := by
  unfold update
  refine (alike_table hR name).bind fun t => ?_
  have hlift := alike_lift (P := Keeping R name t) (x := resolveAssignments t assignments)
    fun _ _ h => h.1
  refine hlift.bind fun changes => ?_
  refine Alike.mono (P := Keeping R name t) ?_ (fun _ _ h => h.2) fun _ _ _ h => h
  have hstep : ∀ u key u', Lasting u → u.edit key (assign changes) = .ok u' →
      Lasting u' ∧ u'.name = u.name := fun u key u' hu he => hu.edit he
  split
  · refine (alike_changeRow hR fun ht u hu => ht.edit hu).bind fun n => ?_
    exact alike_pure fun _ _ h => h
  · refine (alike_changeRows hR hs .update c hstep).bind fun n => ?_
    exact alike_pure fun _ _ h => h

theorem alike_delete (hR : Trace.Grows R) (hs : signal.Respects R) (name : String)
    (c : Condition) : Alike R (Same R) (delete name c signal) fun _ => Same R := by
  unfold delete
  refine (alike_table hR name).bind fun t => ?_
  have hstep : ∀ u key u', Lasting u → (u.erase key).map (·.2) = .ok u' →
      Lasting u' ∧ u'.name = u.name := fun u key u' hu he => hu.erase he
  split
  · refine (alike_changeRow hR fun ht u hu => ht.erase hu).bind fun n => ?_
    exact alike_pure fun _ _ h => h
  · refine (alike_changeRows hR hs .delete c hstep).bind fun n => ?_
    exact alike_pure fun _ _ h => h

theorem isName_create {s : Schema} (hn : checkName "table" s.name = .ok ())
    (ht : Table.create s = .ok t) : isName t.name = true := by
  have hname : t.name = s.relist.name := congrArg Schema.name (Table.create_schema ht).2
  rw [hname]
  exact ensure_eq_ok_iff.1 hn

theorem Lasting.create {s : Schema} (hl : s.Listed)
    (hn : checkName "table" s.name = .ok ()) (ht : Table.create s = .ok t)
    (hshort : Disk.fits (tableFile t.name) = true) : Lasting t := by
  obtain ⟨hs, hschema⟩ := Table.create_schema ht
  rw [hl.relist_eq] at hschema
  exact ⟨Table.create_sound ht, hschema ▸ hs, isName_create hn ht, hshort⟩

theorem IsClean.find_tableFile {d : Disk} (h : IsClean d) (ht : Lasting t) (hd : Holds d t) :
    d.find (tableFile t.name) = .node (.file (Document.ofTable t).encode) := by
  rw [ht.direct.find h.root, hd]

theorem Coherent.hasTable (h : db.Coherent) (name : String) :
    db.hasTable name = db.disk.isFile (tableFile name) := by
  rw [Database.hasTable, hasFile]
  cases hl : db.loaded.lookup name with
  | none => rfl
  | some t =>
    obtain ⟨rfl, ht, hd⟩ := h.loaded name t hl
    rw [Disk.isFile, h.clean.find_tableFile ht hd]
    rfl

theorem Same.hasTable (h : Same R db db') (name : String) :
    db.hasTable name = db'.hasTable name := by
  rw [h.left.hasTable, h.right.hasTable, h.disk]

/-- The save of a new table, which is dropped again if that fails. -/
def trySave (t : Table) : Action Unit :=
  tryCatch (save t) fun e => do
    drop t.name
    throw e

theorem run_trySave_clean (ht : Lasting t) (h : IsClean db.disk) :
    (trySave t).run.run db = (.ok (), saved t db) := by
  rw [trySave, run_tryCatch, run_save_clean h ht]

theorem run_trySave_long (hn : isName t.name = true)
    (hlong : Disk.fits (tableFile t.name) = false) (h : IsClean db.disk) :
    (trySave t).run.run db =
      (.error .io, { db with loaded := db.loaded.filter fun e => e.1 ≠ t.name }) := by
  have hsave : db.disk.save (tableFile t.name) (Document.ofTable t).encode = (false, db.disk) :=
    (isPlain_tableFile hn).save_long hlong h.root
  rw [trySave, run_tryCatch, run_save]
  simp only [hsave]
  rfl

theorem Coherent.drop (h : db.Coherent) (name : String) (t : Table) :
    Coherent { db with loaded := (putTable name t db.loaded).filter fun e => e.1 ≠ name } := by
  refine ⟨h.clean, fun n u hu => ?_⟩
  simp only [lookup_drop] at hu
  split at hu
  · cases hu
  · rename_i hn
    rw [lookup_putTable, if_neg hn] at hu
    exact h.loaded n u hu

/-- A new table whose name is too long for a file is dropped again. -/
theorem alike_enter_long {α : Type} (hn : isName t.name = true)
    (hlong : Disk.fits (tableFile t.name) = false) (f : Action α)
    (Q : α → Database → Database → Prop) :
    Alike R (Same R) (do keep t.name t; trySave t; f) Q := by
  have hrun : ∀ db : Database, db.Coherent → (do keep t.name t; trySave t; f).run.run db =
      (.error .io, { db with
        loaded := (putTable t.name t db.loaded).filter fun e => e.1 ≠ t.name }) := by
    intro db h
    have htry : (trySave t).run.run { db with loaded := putTable t.name t db.loaded } =
        (.error .io, _) := run_trySave_long hn hlong h.clean
    rw [run_bind, run_keep]
    simp only [run_bind, htry]
  intro db db' h
  refine ⟨_, _, _, hrun db h.left, hrun db' h.right, h.settings, h.disk, h.trace, ?_,
    h.left.drop t.name t, h.right.drop t.name t⟩
  refine h.memory.imp_right fun hm => ?_
  rw [hm]

theorem alike_create (hR : Trace.Grows R) {s : Schema} (hl : s.Listed) :
    Alike R (Same R) (create s) fun _ => Same R := by
  unfold create
  refine (alike_lift fun _ _ h => h).bind fun _ => ?_
  refine (alike_lift fun _ _ h => h.2).bind fun _ => ?_
  refine (alike_lift fun _ _ h => h.2.2).bind fun t => ?_
  refine Alike.of_common (F := checkName "table" s.name = .ok () ∧ Table.create s = .ok t)
    (fun _ _ h => ⟨h.2.2.1, h.1⟩) fun ⟨hn, ht⟩ => ?_
  refine Alike.mono (P := Same R) ?_ (fun _ _ h => h.2.2.2) fun _ _ _ h => h
  refine alike_get (fun db db' h => by rw [h.hasTable]) fun db => ?_
  cases db.hasTable t.name with
  | true => exact fun db db' h => ⟨.error (.tableTaken t.name), db, db', rfl, rfl, h⟩
  | false =>
    cases hshort : Disk.fits (tableFile t.name) with
    | false => exact alike_enter_long (isName_create hn ht) hshort _ _
    | true =>
      have hlasting : Lasting t := .create hl hn ht hshort
      refine alike_commit hR hlasting rfl (fun _ h => run_trySave_clean hlasting h) ?_
      exact (alike_report hR _).bind fun _ => alike_pure fun _ _ h => h

theorem alike_createTable (hR : Trace.Grows R) (name : String) (columns : List Column)
    (ifAbsent : Bool) :
    Alike R (Same R) (createTable name columns ifAbsent) fun _ => Same R := by
  have hcreate : Alike R (Same R) (do
      let _ ← create (.ofColumns name columns)
      pure (.created name)) fun (_ : Outcome) => Same R := by
    refine (alike_create hR ?_).bind fun _ => alike_pure fun _ _ h => h
    exact Schema.listed_ofColumns name columns []
  unfold createTable
  refine alike_get (fun db db' h => by simp only [h.hasTable]) fun db => ?_
  split
  · exact alike_pure fun _ _ h => h
  · refine hcreate.tryCatch fun e => ?_
    split
    · exact alike_pure fun _ _ h => h
    · exact alike_throw fun _ _ h => h

theorem alike_poll (hR : Trace.Grows R) (hs : signal.Respects R) :
    Alike R (Same R) (poll signal) fun _ => Same R :=
  alike_watch (Watched.alike_poll hR hs)

theorem alike_run (hR : Trace.Grows R) (hs : signal.Respects R) (s : Statement) :
    Alike R (Same R) (run s signal) fun _ => Same R := by
  refine (alike_poll hR hs).bind fun _ => ?_
  cases s with
  | select q => exact alike_select hR hs q
  | insert name row => exact alike_insert hR name row
  | update name assignments c => exact alike_update hR hs name assignments c
  | delete name c => exact alike_delete hR hs name c
  | create name columns ifAbsent => exact alike_createTable hR name columns ifAbsent

theorem alike_execute (hR : Trace.Grows R) (hs : signal.Respects R) (text : String) :
    Alike R (Same R) (execute text signal) fun _ => Same R := by
  refine (alike_poll hR hs).bind fun _ => ?_
  exact (alike_compute _).bind fun s => alike_run hR hs s

end Database
end RelStore
