import RelStore.Proofs.Database.Restart
import RelStore.Proofs.Disk.Atomic

/-! Saves of tables that are cut off or fail at any of their steps, also while the content is
written. The file of the table is what it was or the whole new file, the other files are what
they were, and the new file is none of theirs. -/
namespace RelStore
namespace Database
variable {device : Disk.Device} {t : Table} {db db' : Database} {d d' : Disk} {name : String}
  {r : Except Error Unit} {e : Error}

theorem tableOfFile?_temporary (device : Disk.Device) (d : Disk) :
    tableOfFile? (device.temporary d) = none := by
  obtain ⟨drawn, hdrawn⟩ := device.named d
  rw [Option.eq_none_iff_forall_ne_some]
  intro name h
  obtain ⟨hfile, -, hmark⟩ := tableOfFile?_eq_some_iff.1 h
  have hlists := congrArg String.toList (hdrawn.symm.trans hfile)
  have hending : (".json" : String).toList = ['.', 'j', 's', 'o', 'n'] := rfl
  rw [Disk.temporaryName, String.toList_append, String.toList_append, toList_tableFile,
    hending] at hlists
  have hname : Disk.temporaryMark.toList ++ drawn.toList = name.toList :=
    List.append_cancel_right hlists
  exact hmark (hname ▸ List.prefix_append _ _)

theorem temporary_ne_tableFile (device : Disk.Device) (d : Disk) (h : isName name = true) :
    device.temporary d ≠ tableFile name := by
  intro hf
  have hnone := tableOfFile?_temporary device d
  rw [hf, tableOfFile?_tableFile h] at hnone
  cases hnone

/-- The tables that have files. -/
def Lists (d : Disk) (name : String) : Prop := name ∈ d.names.filterMap tableOfFile?

theorem lists_of_besides (h : Disk.Besides (device.temporary d) d d') :
    Lists d' name ↔ Lists d name := by
  unfold Lists
  simp only [List.mem_filterMap, Disk.mem_names_iff]
  refine exists_congr fun file => and_congr_left fun hfile => and_congr_right fun _ => ?_
  have hne : file ≠ device.temporary d := by
    rintro rfl
    rw [tableOfFile?_temporary] at hfile
    cases hfile
  rw [h.nodes [file] (by simp) fun hp => hne (List.head_eq_of_cons_eq hp)]

/-- The directory when the save of a table has put the new file in its place, or else at the step
that is not done. -/
def written (device : Disk.Device) (t : Table) (db : Database) : Except Error Unit × Disk :=
  db.disk.commit device db.settings.durability.requiresSync (tableFile t.name)
    (Document.ofTable t).encode

theorem written_congr (hdisk : db'.disk = db.disk) (hsettings : db'.settings = db.settings) :
    written device t db' = written device t db := by
  rw [written, written, hdisk, hsettings]

theorem find_of_written (h : written device t db = (.ok (), d)) :
    d.find (tableFile t.name) = .node (.file (Document.ofTable t).encode) ∧
      ∃ q, d.placeOf? (tableFile t.name) = some q ∧
        Disk.Replaces q (Document.ofTable t).encode db.disk d := by
  obtain ⟨q, hplace, hreplaces, hfind⟩ := Disk.replaces_of_commit h
  exact ⟨hfind, q, hplace, hreplaces⟩

theorem run_saveOn_cases (h : (saveOn device t).run.run db = (r, db')) :
    (∃ e d, written device t db = (.error e, d) ∧ e.kind = .io ∧ r = .error e ∧
      Disk.SameNodes db.disk db'.disk ∧ db' = { db with disk := db'.disk }) ∨
    written device t db = (.ok (), db'.disk) ∧
      (r = .ok () ∧ db' = { db with
          disk := db'.disk
          trace := .event (.saved t.name t.size (db.settings.tablePath t.name)) :: db.trace } ∨
        db.settings.durability.requiresSync = true ∧ r = .error .io ∧
          db' = { db with disk := db'.disk }) := by
  rw [run_saveOn] at h
  rcases hsave : db.disk.saveOn device db.settings.durability.requiresSync (tableFile t.name)
    (Document.ofTable t).encode with ⟨e | ⟨⟩, disk⟩
  · simp only [hsave] at h
    cases h
    rcases Disk.saveOn_error hsave with ⟨d, hcommit, rfl⟩ | ⟨hcommit, hsync, rfl⟩
    · exact .inl ⟨e, d, hcommit, Disk.kind_of_perform hcommit, rfl,
        Disk.sameNodes_of_commit hcommit, rfl⟩
    · exact .inr ⟨hcommit, .inr ⟨hsync, rfl, rfl⟩⟩
  · simp only [hsave] at h
    cases h
    rcases Disk.saveOn_cases hsave with ⟨_, _, -, he, -⟩ | ⟨hcommit, -⟩
    · cases he
    · exact .inr ⟨hcommit, .inl ⟨rfl, rfl⟩⟩

theorem run_saveOn_error (h : (saveOn device t).run.run db = (.error e, db')) :
    db'.loaded = db.loaded ∧ e.kind = .io ∧
      ((∃ d, written device t db = (.error e, d)) ∧ Disk.SameNodes db.disk db'.disk ∨
        written device t db = (.ok (), db'.disk) ∧ e = .io ∧
          db.settings.durability.requiresSync = true) := by
  rcases run_saveOn_cases h with
    ⟨_, d, hd, hkind, he, hsame, hdb⟩ | ⟨hd, ⟨he, -⟩ | ⟨hsync, he, hdb⟩⟩
  · cases he
    exact ⟨by rw [hdb], hkind, .inl ⟨⟨d, hd⟩, hsame⟩⟩
  · cases he
  · cases he
    exact ⟨by rw [hdb], rfl, .inr ⟨hd, rfl, hsync⟩⟩

/-- A save that is cut off before its new file is in its place, in whatever pieces the content is
written, leaves nothing else than this new file, whose name was free and is that of no table; and
if it goes on to fail, then not even this file. Once the new file is in its place the file of the
table has the whole content, and nothing else has changed, though a save that synchronizes the
directory can still fail then. -/
theorem save_atomic {result : Except Error Unit} (hwritten : written device t db = (result, d'))
    (hsave : (saveOn device t).run.run db = (r, db')) :
    (∀ e, result = .error e →
        Disk.Besides (device.temporary db.disk) db.disk d' ∧
        (∀ name, Lists d' name ↔ Lists db.disk name) ∧
        r = .error e ∧ e.kind = .io ∧ Disk.SameNodes db.disk db'.disk ∧
        db' = { db with disk := db'.disk }) ∧
      (result = .ok () →
        (r = .ok () ∨ db.settings.durability.requiresSync = true ∧ r = .error .io) ∧
        db'.disk = d' ∧
        d'.find (tableFile t.name) = .node (.file (Document.ofTable t).encode) ∧
        ∃ q, d'.placeOf? (tableFile t.name) = some q ∧
          Disk.Replaces q (Document.ofTable t).encode db.disk d') ∧
      db.disk.node? [device.temporary db.disk] = none ∧
      ∀ name, isName name = true → device.temporary db.disk ≠ tableFile name := by
  refine ⟨?_, ?_, device.free db.disk, fun _ => temporary_ne_tableFile device db.disk⟩
  · rintro e rfl
    rcases run_saveOn_cases hsave with ⟨e', d, hd, hkind, hr, hsame, hdb⟩ | ⟨hd, -⟩
    · cases hwritten.symm.trans hd
      have hbesides := Disk.besides_of_commit hwritten
      exact ⟨hbesides, fun _ => lists_of_besides hbesides, hr, hkind, hsame, hdb⟩
    · cases hwritten.symm.trans hd
  · rintro rfl
    rcases run_saveOn_cases hsave with ⟨e', d, hd, -⟩ | ⟨hd, hr⟩
    · cases hwritten.symm.trans hd
    · obtain rfl : d' = db'.disk := congrArg Prod.snd (hwritten.symm.trans hd)
      refine ⟨?_, rfl, find_of_written hwritten⟩
      rcases hr with ⟨hr, -⟩ | ⟨hsync, hr, -⟩
      · exact .inl hr
      · exact .inr ⟨hsync, hr⟩

def archive : Database :=
  { opened default with disk := (opened default).disk.put ["posts.json"] (.file [123, 125]) }

def byByte (bytes : List UInt8) : List (List UInt8) := bytes.map ([·])

theorem flatten_byByte (bytes : List UInt8) : (byByte bytes).flatten = bytes := by
  induction bytes with
  | nil => rfl
  | cons b rest ih => exact congrArg (b :: ·) ih

/-- A device that is given a document byte by byte, and stops after the third one. -/
def choked : Disk.Device where
  refuses := (· == 5)
  temporary := Disk.fresh
  pieces bytes := (byByte bytes, [])
  named := Disk.Device.willing.named
  free := Disk.node?_fresh
  whole bytes := by rw [List.append_nil, flatten_byByte]

def unsettled : Disk.Device := { Disk.Device.willing with refuses := (· == 5) }

theorem save_atomic_choked :
    ∃ d db', written choked (made posts) archive = (.error .unwritten, d) ∧
      d.node? ["tmp-0.json"] = some (.file [123, 10, 32]) ∧
      d.node? ["posts.json"] = some (.file [123, 125]) ∧
      (saveOn choked (made posts)).run.run archive = (.error .unwritten, db') ∧
      db'.disk.node? ["tmp-0.json"] = none ∧
      db'.disk.node? ["posts.json"] = some (.file [123, 125]) := by
  have hstate : (written choked (made posts) archive).1 = .error .unwritten ∧
      (written choked (made posts) archive).2.node? ["tmp-0.json"] =
        some (.file [123, 10, 32]) := by decide +kernel
  rcases hwritten : written choked (made posts) archive with ⟨result, d⟩
  rw [hwritten] at hstate
  obtain ⟨rfl, hnew⟩ := hstate
  rcases hsave : (saveOn choked (made posts)).run.run archive with ⟨r, db'⟩
  obtain ⟨hbesides, -, rfl, -, hsame, -⟩ := (save_atomic hwritten hsave).1 _ rfl
  refine ⟨d, db', rfl, hnew, ?_, rfl, ?_, ?_⟩
  · exact hbesides.nodes ["posts.json"] (by decide) (by decide +kernel)
  · exact hsame.nodes ["tmp-0.json"] (by decide)
  · exact hsame.nodes ["posts.json"] (by decide)

end Database
end RelStore
