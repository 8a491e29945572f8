import RelStore.Proofs.Database.Create

/-! The list of the tables and the question whether there is one of a name. The list is made of
the names in the directory and in memory, the question goes to memory and to one path; they agree
except for folders that are called like the file of a table. -/
namespace RelStore

namespace Disk
variable {d : Disk} {file : String}

theorem isFile_iff : d.isFile file = true ↔ ∃ bytes, d.find file = .node (.file bytes) := by
  rw [isFile]
  split
  · rename_i bytes hfind
    simp [hfind]
  · rename_i hfind
    simpa using hfind

theorem IsPlain.find_exists_iff (h : IsPlain file) : (∃ n, d.find file = .node n) ↔
    d.node? [] = some .folder ∧ isEntry file = true ∧ ∃ n, d.node? [file] = some n := by
  constructor
  · rintro ⟨n, hn⟩
    have hdirect := h.direct_of_find hn
    obtain ⟨hroot, hnode⟩ := hdirect.node?_of_find hn
    exact ⟨hroot, hdirect.entry, n, hnode⟩
  · rintro ⟨hroot, hentry, n, hn⟩
    have hdirect := h.direct_of_isEntry hentry
    refine ⟨n, ?_⟩
    rw [hdirect.find hroot, hn]

end Disk

namespace Database
variable {db : Database} {name : String} {names : List String}

theorem lists_iff {d : Disk} : Lists d name ↔
    (Disk.isEntry (tableFile name) = true ∧ ∃ n, d.node? [tableFile name] = some n) ∧
    name.toList ≠ [] ∧ ¬ Disk.temporaryMark.toList <+: name.toList := by
  simp only [Lists, List.mem_filterMap, Disk.mem_names_iff, tableOfFile?_eq_some_iff]
  constructor
  · rintro ⟨file, hnode, rfl, hname⟩
    exact ⟨hnode, hname⟩
  · rintro ⟨hnode, hname⟩
    exact ⟨_, hnode, rfl, hname⟩

theorem lists_of_isIdentifier {d : Disk} (h : IsIdentifier name) :
    Lists d name ↔
      Disk.isEntry (tableFile name) = true ∧ ∃ n, d.node? [tableFile name] = some n := by
  have hname := tableOfFile?_eq_some_iff.1 (tableOfFile?_tableFile (isName_iff.2 h))
  rw [lists_iff, and_iff_left hname.2]

theorem fileNames_exists_iff :
    (∃ names, db.fileNames = .ok names) ↔ ∀ bytes, db.disk.node? [] ≠ some (.file bytes) := by
  rw [fileNames]
  split
  · rename_i hroot
    simp [hroot]
  · rename_i bytes hroot
    simp [hroot]
  · rename_i hroot
    simp [hroot]

theorem mem_fileNames_iff (h : db.fileNames = .ok names) :
    name ∈ names ↔ db.disk.node? [] = some .folder ∧ Lists db.disk name := by
  rw [fileNames] at h
  split at h
  · rename_i hroot
    cases h
    rw [Text.mem_sortNames, hroot, eq_self, true_and]
    rfl
  · cases h
  · rename_i hroot
    cases h
    simp [hroot]

theorem tableNames_eq_ok_iff : db.tableNames = .ok names ↔ ∃ files, db.fileNames = .ok files ∧
    Text.sortNames (files ++ db.loaded.map (·.1)) = names := by
  simp only [tableNames, bind_eq_ok_iff, pure, Except.pure, Except.ok.injEq]

theorem mem_tableNames_iff (h : db.tableNames = .ok names) : name ∈ names ↔
    (db.loaded.lookup name).isSome = true ∨
      db.disk.node? [] = some .folder ∧ Lists db.disk name := by
  obtain ⟨files, hfiles, rfl⟩ := tableNames_eq_ok_iff.1 h
  rw [Text.mem_sortNames, List.mem_append, mem_fileNames_iff hfiles, mem_loaded_iff, or_comm]

theorem rising_tableNames (h : db.tableNames = .ok names) : Text.Rising names := by
  obtain ⟨files, -, rfl⟩ := tableNames_eq_ok_iff.1 h
  exact Text.rising_sortNames _

theorem tableNames_exists_iff :
    (∃ names, db.tableNames = .ok names) ↔ ∀ bytes, db.disk.node? [] ≠ some (.file bytes) := by
  rw [← fileNames_exists_iff]
  constructor
  · rintro ⟨names, h⟩
    obtain ⟨files, hfiles, -⟩ := tableNames_eq_ok_iff.1 h
    exact ⟨files, hfiles⟩
  · rintro ⟨files, hfiles⟩
    exact ⟨_, tableNames_eq_ok_iff.2 ⟨files, hfiles, rfl⟩⟩

theorem hasTable_iff : db.hasTable name = true ↔ (db.loaded.lookup name).isSome = true ∨
    ∃ bytes, db.disk.find (tableFile name) = .node (.file bytes) := by
  rw [hasTable, hasFile, Bool.or_eq_true, Disk.isFile_iff]

/-- Unless a file is in the place of the directory, the names of the tables are listed in rising
order, each once, whatever is in the directory and in memory. A name that can be given to a table
is among them exactly if there is a table of the name, or else a folder that is called like its
file. -/
theorem tableNames_exact (db : Database) :
    ((∃ names, db.tableNames = .ok names) ↔ ∀ bytes, db.disk.node? [] ≠ some (.file bytes)) ∧
    ∀ names, db.tableNames = .ok names → Text.Rising names ∧
      ∀ name, IsIdentifier name → (name ∈ names ↔
        db.hasTable name = true ∨ db.disk.find (tableFile name) = .node .folder) := by
  refine ⟨tableNames_exists_iff, fun names h => ⟨rising_tableNames h, fun name hname => ?_⟩⟩
  have hplain : Disk.IsPlain (tableFile name) := isPlain_tableFile (isName_iff.2 hname)
  have hnode : (∃ n, db.disk.find (tableFile name) = .node n) ↔
      (∃ bytes, db.disk.find (tableFile name) = .node (.file bytes)) ∨
        db.disk.find (tableFile name) = .node .folder := by
    constructor
    · rintro ⟨_ | _, hn⟩
      · exact .inl ⟨_, hn⟩
      · exact .inr hn
    · rintro (⟨bytes, hn⟩ | hn)
      · exact ⟨_, hn⟩
      · exact ⟨_, hn⟩
  rw [mem_tableNames_iff h, lists_of_isIdentifier hname, ← hplain.find_exists_iff, hnode,
    hasTable_iff, or_assoc]

/-- A directory with posts, which are also in memory, some notes, a save that was cut off, and a
folder with the name of a file. -/
def shelf : Database :=
  { archive with
    loaded := [("posts", made posts)]
    disk := ((archive.disk.put ["notes.txt"] (.file [])).put ["tmp-0.json"] (.file [])).put
      ["old.json"] .folder }

theorem tableNames_exact_shelf :
    shelf.tableNames = .ok ["old", "posts"] ∧ Text.Rising ["old", "posts"] ∧
      IsIdentifier "posts" ∧ shelf.hasTable "posts" = true ∧
      IsIdentifier "notes" ∧ shelf.hasTable "notes" = false := by
  have hnames : shelf.tableNames = .ok ["old", "posts"] := rfl
  have hposts : IsIdentifier "posts" := isName_iff.1 (by decide)
  have hnotes : IsIdentifier "notes" := isName_iff.1 (by decide)
  obtain ⟨hrising, hlisted⟩ := (tableNames_exact shelf).2 _ hnames
  refine ⟨hnames, hrising, hposts, ?_, hnotes, ?_⟩
  · rcases (hlisted "posts" hposts).1 (by decide) with htable | hfolder
    · exact htable
    · exact absurd hfolder (by decide +kernel)
  · rw [← Bool.not_eq_true]
    intro htable
    exact absurd ((hlisted "notes" hnotes).2 (.inl htable)) (by decide)

/-- The folder is listed, and there is no table of its name. -/
theorem folder_in_tableNames :
    shelf.tableNames = .ok ["old", "posts"] ∧ IsIdentifier "old" ∧ shelf.hasTable "old" = false :=
  ⟨rfl, isName_iff.1 (by decide), by decide +kernel⟩

end Database
end RelStore
