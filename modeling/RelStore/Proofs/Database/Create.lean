import RelStore.Proofs.Database.Saves
import RelStore.Proofs.Table.Made

/-! Making tables. A new table is kept in memory before it is saved, and dropped again if the
save fails. So a table is made in memory and in its file, or not at all, unless the save fails
behind the step that puts the file in its place. -/
namespace RelStore

namespace Disk
variable {d d' : Disk}

theorem follow_congr (h : ∀ p, d'.node? p = d.node? p) (folder p : Path) :
    d'.follow folder p = d.follow folder p := by
  induction p generalizing folder with
  | nil => simp only [follow, h]
  | cons c rest ih => simp only [follow, h, ih]

theorem isFile_eq_false (h : ∀ p bytes, d.node? p ≠ some (.file bytes)) (file : String) :
    d.isFile file = false := by
  rw [isFile]
  split
  · rename_i bytes hfind
    obtain ⟨p, hp⟩ := node?_of_find hfind
    exact absurd hp (h p bytes)
  · rfl

/-- Nothing is in a directory that is not there. -/
def Rooted (d : Disk) : Prop := d.node? [] = none → ∀ p, d.node? p = none

theorem SameNodes.isFile_eq (h : SameNodes d d') (hd : d.Rooted) (file : String) :
    d'.isFile file = d.isFile file := by
  rcases h.root with hroot | ⟨hnone, hmade⟩
  · have hnodes : ∀ p, d'.node? p = d.node? p := fun p => by
      by_cases hp : p = []
      · rw [hp, hroot]
      · exact h.nodes p hp
    rw [isFile, isFile, find, find, follow_congr hnodes]
  · have hempty := hd hnone
    rw [isFile_eq_false (fun p bytes hp => ?_), isFile_eq_false fun p bytes hp => ?_]
    · rw [hempty p] at hp
      cases hp
    · by_cases hpath : p = []
      · rw [hpath, hmade] at hp
        cases hp
      · rw [h.nodes p hpath, hempty p] at hp
        cases hp

end Disk

namespace Database
variable {device : Disk.Device} {db db' : Database} {s : Schema} {name : String} {t : Table}
  {l : List (String × Table)}

/-- A letter or an underscore. -/
def IsInitial (c : Char) : Prop := ('A' ≤ c ∧ c ≤ 'Z') ∨ ('a' ≤ c ∧ c ≤ 'z') ∨ c = '_'

/-- A letter or an underscore, and then letters, digits and underscores. -/
def IsIdentifier (name : String) : Prop :=
  ∃ first rest, name.toList = first :: rest ∧ IsInitial first ∧
    ∀ c ∈ rest, IsInitial c ∨ ('0' ≤ c ∧ c ≤ '9')

theorem isInitial_iff {c : Char} : IsInitial c ↔ c.isAlpha = true ∨ c = '_' := by
  have hupper : c.isUpper = true ↔ 'A' ≤ c ∧ c ≤ 'Z' := decide_eq_true_iff
  have hlower : c.isLower = true ↔ 'a' ≤ c ∧ c ≤ 'z' := by
    show (decide (c.val ≥ 'a'.val) && decide (c.val ≤ 'z'.val)) = true ↔ _
    rw [Bool.and_eq_true, decide_eq_true_eq, decide_eq_true_eq]
    rfl
  have halpha : c.isAlpha = true ↔ c.isUpper = true ∨ c.isLower = true := Bool.or_eq_true_iff
  rw [IsInitial, halpha, hupper, hlower, or_assoc]

theorem isName_iff : isName name = true ↔ IsIdentifier name := by
  unfold isName IsIdentifier
  have hdigit : ∀ c : Char, c.isDigit = true ↔ '0' ≤ c ∧ c ≤ '9' := fun c => by
    simp only [Char.isDigit, Bool.and_eq_true, decide_eq_true_eq]
    rfl
  cases name.toList with
  | nil => simp
  | cons first rest =>
    simp [isInitial_iff, ← hdigit, Char.isAlphanum, or_right_comm]

theorem checkName_eq_ok_iff {thing : String} {u : Unit} :
    checkName thing name = .ok u ↔ IsIdentifier name := by
  rw [checkName, ensure_eq_ok_iff, isName_iff]

theorem checkNames_eq_ok_iff {columns : List Column} {u : Unit} :
    checkNames columns = .ok u ↔ ∀ c ∈ columns, IsIdentifier c.name := by
  induction columns with
  | nil => simp [checkNames]
  | cons c rest ih => simp [checkNames, bind_eq_ok_iff, checkName_eq_ok_iff, ih]

theorem putTable_of_lookup_eq_none (h : l.lookup name = none) (t : Table) :
    putTable name t l = l ++ [(name, t)] := by
  induction l with
  | nil => rfl
  | cons e rest ih =>
    obtain ⟨n, u⟩ := e
    rw [List.lookup_cons] at h
    by_cases hn : n = name
    · simp [hn] at h
    · have hb : (name == n) = false := by simpa using Ne.symm hn
      rw [hb] at h
      rw [putTable, if_neg hn, ih h, List.cons_append]

theorem filter_putTable (h : l.lookup name = none) (t : Table) :
    (putTable name t l).filter (fun e => e.1 ≠ name) = l := by
  have hne : ∀ e ∈ l, e.1 ≠ name := fun e he => by
    have hb := List.lookup_eq_none_iff.1 h e he
    rw [bne_iff_ne] at hb
    exact Ne.symm hb
  have hall : l.filter (fun e => e.1 ≠ name) = l :=
    List.filter_eq_self.2 fun e he => decide_eq_true (hne e he)
  rw [putTable_of_lookup_eq_none h, List.filter_append, hall]
  simp

theorem hasTable_eq_false_iff : db.hasTable name = false ↔
    db.loaded.lookup name = none ∧ db.disk.isFile (tableFile name) = false := by
  simp only [hasTable, hasFile, Bool.or_eq_false_iff, Option.isSome_eq_false_iff,
    Option.isNone_iff_eq_none]

def newTable (s : Schema) : Except Error Table := do
  checkName "table" s.name
  checkNames s.columns
  Table.create s

theorem newTable_eq_ok_iff : newTable s = .ok t ↔
    IsIdentifier s.name ∧ (∀ c ∈ s.columns, IsIdentifier c.name) ∧ Table.create s = .ok t := by
  simp only [newTable, bind_eq_ok_iff, checkName_eq_ok_iff, checkNames_eq_ok_iff, exists_and_left,
    exists_const]

/-- Keeps a new table and saves it; it is dropped if the save fails. -/
def enterOn (device : Disk.Device) (t : Table) : Action Table := do
  keep t.name t
  tryCatch (saveOn device t) fun e => do
    drop t.name
    throw e
  report (.created t.name t.schema.width)
  pure t

def createOn (device : Disk.Device) (s : Schema) : Action Table := do
  let t ← (newTable s : Except Error Table)
  if (← get).hasTable t.name then throw (.tableTaken t.name)
  enterOn device t

theorem createOn_willing : createOn .willing = create := by
  funext s
  simp only [createOn, newTable, create, liftM_bind, bind_assoc]
  rfl

def withNew (t : Table) (disk : Disk) (db : Database) : Database :=
  { db with
    loaded := db.loaded ++ [(t.name, t)]
    disk
    trace := .event (.created t.name t.schema.width) ::
      .event (.saved t.name t.size (db.settings.tablePath t.name)) :: db.trace }

theorem run_enterOn (device : Disk.Device) (h : db.loaded.lookup t.name = none) :
    (enterOn device t).run.run db =
      match db.disk.saveOn device db.settings.durability.requiresSync (tableFile t.name)
          (Document.ofTable t).encode with
      | (.ok (), disk) => (.ok t, withNew t disk db)
      | (.error e, disk) => (.error e, { db with disk }) := by
  rcases hsave : db.disk.saveOn device db.settings.durability.requiresSync (tableFile t.name)
    (Document.ofTable t).encode with ⟨e | ⟨⟩, disk⟩
  · simp only [enterOn, run_bind, run_keep, run_tryCatch, run_saveOn, hsave]
    show (Except.error e, { db with
      loaded := (putTable t.name t db.loaded).filter (fun e => e.1 ≠ t.name), disk }) = _
    rw [filter_putTable h]
  · simp only [enterOn, run_bind, run_keep, run_tryCatch, run_saveOn, hsave]
    rw [putTable_of_lookup_eq_none h]
    rfl

/-- There is no such table or its name is taken, or else its save succeeds or not. -/
theorem run_createOn (device : Disk.Device) (s : Schema) (db : Database) :
    (∃ e, (createOn device s).run.run db = (.error e, db) ∧
      ∀ t, newTable s = .ok t → db.hasTable t.name = true) ∨
    ∃ t disk, newTable s = .ok t ∧ db.hasTable t.name = false ∧
      (db.disk.saveOn device db.settings.durability.requiresSync (tableFile t.name)
            (Document.ofTable t).encode = (.ok (), disk) ∧
          (createOn device s).run.run db = (.ok t, withNew t disk db) ∨
        ∃ e, db.disk.saveOn device db.settings.durability.requiresSync (tableFile t.name)
            (Document.ofTable t).encode = (.error e, disk) ∧
          (createOn device s).run.run db = (.error e, { db with disk })) := by
  rw [createOn, run_bind, run_lift]
  cases newTable s with
  | error e => exact .inl ⟨e, rfl, nofun⟩
  | ok t =>
    cases ht : db.hasTable t.name with
    | true =>
      refine .inl ⟨.tableTaken t.name, ?_, ?_⟩
      · simp only [run_bind, run_get, ht, if_true, run_throw]
      · rintro _ ⟨⟩
        exact ht
    | false =>
      rcases hsave : db.disk.saveOn device db.settings.durability.requiresSync (tableFile t.name)
        (Document.ofTable t).encode with ⟨e | ⟨⟩, disk⟩
      · refine .inr ⟨t, disk, rfl, ht, .inr ⟨e, hsave, ?_⟩⟩
        simp only [run_bind, run_get, ht, Bool.false_eq_true, if_false]
        rw [run_enterOn device (hasTable_eq_false_iff.1 ht).1, hsave]
      · refine .inr ⟨t, disk, rfl, ht, .inl ⟨hsave, ?_⟩⟩
        simp only [run_bind, run_get, ht, Bool.false_eq_true, if_false]
        rw [run_enterOn device (hasTable_eq_false_iff.1 ht).1, hsave]

variable {columns : List Column} {keys : List ForeignKey}

theorem create_ofColumns
    (h : Table.create ((Schema.ofColumns name columns).withForeignKeys keys) = .ok t) :
    t.schema = (Schema.ofColumns name columns).withForeignKeys keys ∧ t.entries = [] ∧
      Document.ofTable t = ⟨name, columns, [], keys⟩ ∧
      ∀ path, (Document.ofTable t).toTable path t.name = .ok t := by
  have hsound := Table.create_sound h
  obtain ⟨hcheck, i, -, rfl⟩ := Table.create_eq_ok_iff.1 h
  exact ⟨rfl, rfl, rfl, Document.toTable_ofTable hsound hcheck⟩

theorem name_ofColumns
    (h : Table.create ((Schema.ofColumns name columns).withForeignKeys keys) = .ok t) :
    t.name = name := congrArg Schema.name (create_ofColumns h).1

/-- The table that can be made of listed columns, where its name is free. -/
structure Makes (name : String) (columns : List Column) (keys : List ForeignKey) (t : Table)
    (db : Database) : Prop where
  named : IsIdentifier name
  listed : ∀ c ∈ columns, IsIdentifier c.name
  created : Table.create ((Schema.ofColumns name columns).withForeignKeys keys) = .ok t
  free : db.hasTable name = false

theorem makes_exists_iff : (∃ t, Makes name columns keys t db) ↔
    IsIdentifier name ∧ (∀ c ∈ columns, IsIdentifier c.name) ∧
      ((Schema.ofColumns name columns).withForeignKeys keys).check = .ok () ∧
      db.loaded.lookup name = none ∧ db.disk.isFile (tableFile name) = false := by
  rw [← hasTable_eq_false_iff]
  constructor
  · rintro ⟨t, hn, hc, hcreate, hfree⟩
    exact ⟨hn, hc, (Table.create_schema hcreate).1, hfree⟩
  · rintro ⟨hn, hc, hcheck, hfree⟩
    obtain ⟨t, hcreate, -⟩ := Table.create_exists hcheck
    exact ⟨t, hn, hc, hcreate, hfree⟩

/-- No table can be made, or else its save succeeds or not. -/
theorem createOn_cases {answer : Except Error Table}
    (h : (createOn device ((Schema.ofColumns name columns).withForeignKeys keys)).run.run db =
      (answer, db')) :
    (∃ e, answer = .error e ∧ db' = db ∧ ∀ t, ¬ Makes name columns keys t db) ∨
    ∃ t disk result, Makes name columns keys t db ∧
      db.disk.saveOn device db.settings.durability.requiresSync (tableFile name)
        (Document.ofTable t).encode = (result, disk) ∧
      (result = .ok () ∧ answer = .ok t ∧ db' = withNew t disk db ∨
        ∃ e, result = .error e ∧ answer = .error e ∧ db' = { db with disk }) := by
  rcases run_createOn device ((Schema.ofColumns name columns).withForeignKeys keys) db with
    ⟨e, hrun, htaken⟩ | ⟨t, disk, hnew, hfree, hsaved⟩
  · cases h.symm.trans hrun
    refine .inl ⟨e, rfl, rfl, fun t ht => ?_⟩
    have htaken := htaken t (newTable_eq_ok_iff.2 ⟨ht.named, ht.listed, ht.created⟩)
    rw [name_ofColumns ht.created, ht.free] at htaken
    cases htaken
  · obtain ⟨hn, hc, hcreate⟩ := newTable_eq_ok_iff.1 hnew
    rw [name_ofColumns hcreate] at hfree hsaved
    rcases hsaved with ⟨hsave, hrun⟩ | ⟨e, hsave, hrun⟩
    · cases h.symm.trans hrun
      exact .inr ⟨t, disk, _, ⟨hn, hc, hcreate, hfree⟩, hsave, .inl ⟨rfl, rfl, rfl⟩⟩
    · cases h.symm.trans hrun
      exact .inr ⟨t, disk, _, ⟨hn, hc, hcreate, hfree⟩, hsave, .inr ⟨e, rfl, rfl, rfl⟩⟩

/-- A new table in its file. -/
structure Filed (name : String) (columns : List Column) (keys : List ForeignKey) (t : Table)
    (db db' : Database) : Prop where
  schema : t.schema = (Schema.ofColumns name columns).withForeignKeys keys
  empty : t.entries = []
  file : Disk.Replaces [tableFile name] (Document.ofTable t).encode db.disk db'.disk
  load : ((load name).run.run db').1 = .ok t

theorem Makes.filed (h : Makes name columns keys t db)
    (hcommit : db.disk.commit device db.settings.durability.requiresSync (tableFile name)
      (Document.ofTable t).encode = (.ok (), db'.disk)) : Filed name columns keys t db db' := by
  obtain ⟨hschema, hempty, -, hload⟩ := create_ofColumns h.created
  obtain ⟨q, hplace, hreplaces, hfind⟩ := Disk.replaces_of_commit hcommit
  obtain ⟨-, rfl⟩ := (isPlain_tableFile (isName_iff.2 h.named)).direct_of_placeOf? hplace
  refine ⟨hschema, hempty, hreplaces, ?_⟩
  obtain rfl := name_ofColumns h.created
  rw [fst_run_load, readTable_of_find hfind, hload]

theorem createOn_exists_iff {answer : Except Error Table}
    (h : (createOn device ((Schema.ofColumns name columns).withForeignKeys keys)).run.run db =
      (answer, db')) :
    (∃ t, answer = .ok t) ↔ (∃ t, Makes name columns keys t db) ∧
      (db.disk.saveOn device db.settings.durability.requiresSync (tableFile name)
        (Document.encode ⟨name, columns, [], keys⟩)).1 = .ok () := by
  rcases createOn_cases h with ⟨e, rfl, -, hnone⟩ | ⟨t, disk, result, hmakes, hsave, hr⟩
  · refine ⟨nofun, ?_⟩
    rintro ⟨⟨t, ht⟩, -⟩
    exact absurd ht (hnone t)
  · rw [(create_ofColumns hmakes.created).2.2.1] at hsave
    rw [hsave]
    rcases hr with ⟨rfl, rfl, -⟩ | ⟨e, rfl, rfl, -⟩
    · exact ⟨fun _ => ⟨⟨t, hmakes⟩, rfl⟩, fun _ => ⟨t, rfl⟩⟩
    · exact ⟨nofun, nofun⟩

theorem createOn_ok
    (h : (createOn device ((Schema.ofColumns name columns).withForeignKeys keys)).run.run db =
      (.ok t, db')) :
    Filed name columns keys t db db' ∧ db'.loaded = db.loaded ++ [(name, t)] ∧
      db'.settings = db.settings := by
  rcases createOn_cases h with ⟨e, he, -⟩ | ⟨u, disk, result, hmakes, hsave, hr⟩
  · cases he
  · rcases hr with ⟨rfl, hu, rfl⟩ | ⟨e, -, he, -⟩
    · cases hu
      rcases Disk.saveOn_cases hsave with ⟨_, _, -, he, -⟩ | ⟨hcommit, -⟩
      · cases he
      · refine ⟨hmakes.filed hcommit, ?_, rfl⟩
        rw [withNew, name_ofColumns hmakes.created]
    · cases he

theorem createOn_error {e : Error}
    (h : (createOn device ((Schema.ofColumns name columns).withForeignKeys keys)).run.run db =
      (.error e, db')) :
    db' = { db with disk := db'.disk } ∧
      (Disk.SameNodes db.disk db'.disk ∨
        db.settings.durability.requiresSync = true ∧ e = .io ∧ db.hasTable name = false ∧
          ∃ t, Filed name columns keys t db db') := by
  rcases createOn_cases h with ⟨_, -, rfl, -⟩ | ⟨t, disk, result, hmakes, hsave, hr⟩
  · exact ⟨rfl, .inl (.refl _)⟩
  · rcases hr with ⟨-, he, -⟩ | ⟨_, rfl, he, rfl⟩
    · cases he
    · cases he
      refine ⟨rfl, ?_⟩
      rcases Disk.saveOn_error hsave with ⟨d, hcommit, rfl⟩ | ⟨hcommit, hsync, rfl⟩
      · exact .inl (Disk.sameNodes_of_commit hcommit)
      · exact .inr ⟨hsync, rfl, hmakes.free, t, hmakes.filed hcommit⟩

theorem hasTable_of_load (h : ((load name).run.run db).1 = .ok t) : db.hasTable name = true := by
  rw [fst_run_load] at h
  obtain ⟨_, _, hfind, -, -⟩ := readTable_eq_ok_iff.1 h
  rw [hasTable, hasFile, Disk.isFile, hfind, Bool.or_true]

/-- What the making of a table leaves, whatever steps of the save the device refuses. A table is
made exactly if the names are allowed, the schema is valid, no table in memory and no file has the
name, and the save succeeds. Then this table, which is empty, comes into memory, and its file, from
which it is loaded, into the directory, and nothing else changes. Otherwise the tables in memory are
as they were. So are the files, and each name is as free or as taken, unless the new file was put
in its place and the directory could not be synchronized behind that: then the name, which was
free, is taken by the file of a table that was not made. -/
theorem createOn_exact {answer : Except Error Table}
    (h : (createOn device ((Schema.ofColumns name columns).withForeignKeys keys)).run.run db =
      (answer, db')) :
    ((∃ t, answer = .ok t) ↔
      IsIdentifier name ∧ (∀ c ∈ columns, IsIdentifier c.name) ∧
      ((Schema.ofColumns name columns).withForeignKeys keys).check = .ok () ∧
      db.loaded.lookup name = none ∧ db.disk.isFile (tableFile name) = false ∧
      (db.disk.saveOn device db.settings.durability.requiresSync (tableFile name)
        (Document.encode ⟨name, columns, [], keys⟩)).1 = .ok ()) ∧
    (∀ t, answer = .ok t → Filed name columns keys t db db' ∧
      db'.loaded = db.loaded ++ [(name, t)] ∧ db'.settings = db.settings) ∧
    ∀ e, answer = .error e → db' = { db with disk := db'.disk } ∧
      (Disk.SameNodes db.disk db'.disk ∧
          (db.disk.Rooted → ∀ n, db'.hasTable n = db.hasTable n) ∨
        db.settings.durability.requiresSync = true ∧ e = .io ∧
          db.hasTable name = false ∧ db'.hasTable name = true ∧
          ∃ t, Filed name columns keys t db db') := by
  refine ⟨?_, fun t ht => createOn_ok (ht ▸ h), fun e he => ?_⟩
  · rw [createOn_exists_iff h, makes_exists_iff]
    simp only [and_assoc]
  · obtain ⟨hdb, hsame | ⟨hsync, hio, hfree, t, ht⟩⟩ := createOn_error (he ▸ h)
    · refine ⟨hdb, .inl ⟨hsame, fun hrooted n => ?_⟩⟩
      rw [hdb, hasTable, hasTable, hasFile, hasFile, hsame.isFile_eq hrooted]
    · exact ⟨hdb, .inr ⟨hsync, hio, hfree, hasTable_of_load ht.load, t, ht⟩⟩

def draftColumns : List Column := [⟨"id", .int, true, false⟩, ⟨"text", .text, false, false⟩]

def drafts : Schema := (Schema.ofColumns "drafts" draftColumns).withForeignKeys []

def stuck : Disk.Device := { Disk.Device.willing with refuses := (· == 4) }

theorem createOn_exact_archive :
    ∃ tried again t, (createOn stuck drafts).run.run archive = (.error .io, tried) ∧
      Disk.SameNodes archive.disk tried.disk ∧
      (createOn .willing drafts).run.run tried = (.ok t, again) ∧
      again.loaded = [("drafts", t)] ∧ ((load "drafts").run.run again).1 = .ok t := by
  obtain ⟨hfails, hfree, hdone⟩ :
      ((createOn stuck drafts).run.run archive).1.map (fun _ => ()) = .error .io ∧
      ((createOn stuck drafts).run.run archive).2.hasTable "drafts" = false ∧
      ((createOn .willing drafts).run.run
        ((createOn stuck drafts).run.run archive).2).1.isOk = true := by decide +kernel
  rcases htried : (createOn stuck drafts).run.run archive with ⟨e | t, tried⟩
  · rw [htried] at hfails hfree hdone
    obtain rfl : e = .io := Except.error.inj hfails
    rcases hagain : (createOn .willing drafts).run.run tried with ⟨e | t, again⟩
    · rw [hagain] at hdone
      cases hdone
    · obtain ⟨-, -, hfailed⟩ := createOn_exact htried
      obtain ⟨-, hmade, -⟩ := createOn_exact hagain
      obtain ⟨hdb, ⟨hsame, -⟩ | ⟨-, -, -, htaken, -⟩⟩ := hfailed _ rfl
      · obtain ⟨hfiled, hloaded, -⟩ := hmade t rfl
        rw [hdb] at hloaded
        exact ⟨tried, again, t, rfl, hsame, hagain, hloaded, hfiled.load⟩
      · cases hfree.symm.trans htaken
  · rw [htried] at hfails
    cases hfails

/-- The making of a table is answered with an error, and its name, which was free, is taken from
then on. -/
theorem create_unsettled :
    let tried := (createOn unsettled drafts).run.run archive
    tried.1.map (fun _ => ()) = .error .io ∧ tried.2.loaded = [] ∧
      archive.hasTable "drafts" = false ∧ tried.2.hasTable "drafts" = true ∧
      ((create drafts).run.run tried.2).1.map (fun _ => ()) = .error (.tableTaken "drafts") := by
  decide +kernel

end Database
end RelStore
