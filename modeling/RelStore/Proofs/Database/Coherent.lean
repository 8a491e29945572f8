import RelStore.Proofs.Database.Files

/-! The invariant of a database that alone writes its directory: each file there holds a
table under its name, and each table in memory is that of its file. -/
namespace RelStore

namespace Disk

theorem node?_of_follow {d : Disk} {folder p : Path} {n : Node}
    (h : d.follow folder p = .node n) : ∃ q, d.node? q = some n := by
  induction p generalizing folder with
  | nil =>
    rw [follow] at h
    split at h
    · rename_i m hm
      cases h
      exact ⟨folder, hm⟩
    · cases h
  | cons c rest ih =>
    rw [follow] at h
    split at h
    · exact ih h
    · split at h <;> cases h
    · cases h
    · cases h

theorem node?_of_find {d : Disk} {file : String} {n : Node} (h : d.find file = .node n) :
    ∃ q, d.node? q = some n := by
  unfold find at h
  split at h
  · cases h
  · split at h
    · cases h
    · exact node?_of_follow h

end Disk

namespace Database

/-- A table that can be written to its file and made from it again. -/
structure Lasting (t : Table) : Prop where
  sound : t.Sound
  checked : t.schema.check = .ok ()
  named : isName t.name = true
  short : Disk.fits (tableFile t.name) = true

theorem Lasting.direct {t : Table} (h : Lasting t) : Disk.IsDirect (tableFile t.name) :=
  ⟨isPlain_tableFile h.named, h.short⟩

def Holds (d : Disk) (t : Table) : Prop :=
  d.node? [tableFile t.name] = some (.file (Document.ofTable t).encode)

structure IsClean (d : Disk) : Prop where
  root : d.node? [] = some .folder
  only : ∀ p n, d.node? p = some n →
    p = [] ∨ ∃ t, Lasting t ∧ p = [tableFile t.name] ∧ n = .file (Document.ofTable t).encode

/-- The directory is clean, and the tables in memory are those of their files. -/
structure Coherent (db : Database) : Prop where
  clean : IsClean db.disk
  loaded : ∀ name t, db.loaded.lookup name = some t → t.name = name ∧ Lasting t ∧ Holds db.disk t

variable {d : Disk} {db db' : Database} {name : String} {t u : Table}

theorem tableFile_inj {m n : String} (h : tableFile m = tableFile n) : m = n := by
  have hl := congrArg String.toList h
  rw [toList_tableFile, toList_tableFile] at hl
  exact String.toList_inj.1 (List.append_cancel_right hl)

theorem isClean_empty : IsClean .empty := by
  refine ⟨rfl, ?_⟩
  intro p n hp
  left
  by_contra hne
  have hnone : Disk.empty.node? p = none := by
    have hb : (p == []) = false := by simpa using hne
    simp [Disk.node?, Disk.empty, List.lookup_cons, hb]
  rw [hnone] at hp
  cases hp

theorem IsClean.not_folder (h : IsClean d) (file : String) : d.node? [file] ≠ some .folder := by
  intro hf
  rcases h.only _ _ hf with hp | ⟨t, -, -, hn⟩
  · cases hp
  · cases hn

/-- A save changes one file. -/
theorem node?_saved (t : Table) (db : Database) (p : Path) :
    (saved t db).disk.node? p =
      if p = [tableFile t.name] then some (.file (Document.ofTable t).encode)
      else db.disk.node? p := by
  rw [saved, Disk.node?_replaced]
  split
  · rfl
  · split
    · rename_i hp
      rw [hp, db.disk.node?_fresh]
    · rfl

theorem IsClean.saved (h : IsClean db.disk) (ht : Lasting t) : IsClean (saved t db).disk := by
  refine ⟨?_, ?_⟩
  · rw [node?_saved, if_neg (by simp)]
    exact h.root
  · intro p n hp
    rw [node?_saved] at hp
    split at hp
    · rename_i hpath
      cases hp
      exact .inr ⟨t, ht, hpath, rfl⟩
    · exact h.only p n hp

theorem holds_saved (t : Table) (db : Database) : Holds (saved t db).disk t := by
  rw [Holds, node?_saved, if_pos rfl]

theorem holds_saved_of_ne (hu : Holds db.disk u) (hne : u.name ≠ t.name) :
    Holds (saved t db).disk u := by
  rw [Holds, node?_saved, if_neg]
  · exact hu
  · intro hp
    exact hne (tableFile_inj (List.head_eq_of_cons_eq hp))

theorem run_save_clean (h : IsClean db.disk) (ht : Lasting t) :
    (save t).run.run db = (.ok (), saved t db) :=
  run_save_eq_saved ht.direct h.root (h.not_folder _)

theorem readTable_of_holds (h : IsClean d) (ht : Lasting t) (hd : Holds d t)
    (settings : Settings) : readTable settings d t.name = .ok t := by
  have hfind : d.find (tableFile t.name) = .node (.file (Document.ofTable t).encode) := by
    rw [ht.direct.find h.root, hd]
  exact readTable_eq_ok_iff.2 ⟨_, _, hfind,
    Document.decode?_encode (Document.ofValues_ofTable t),
    Document.toTable_ofTable ht.sound ht.checked _⟩

/-- A table that is read is that of its file. -/
theorem holds_of_readTable (h : IsClean d) {settings : Settings}
    (hr : readTable settings d name = .ok t) : t.name = name ∧ Lasting t ∧ Holds d t := by
  obtain ⟨bytes, doc, hfind, hdoc, htable⟩ := readTable_eq_ok_iff.1 hr
  obtain ⟨p, hp⟩ := Disk.node?_of_find hfind
  rcases h.only p _ hp with rfl | ⟨u, hu, rfl, hn⟩
  · rw [h.root] at hp
    cases hp
  · cases hn
    rw [Document.decode?_encode (Document.ofValues_ofTable u)] at hdoc
    cases hdoc
    obtain ⟨_, hname, -⟩ := bind_eq_ok_iff.1 htable
    obtain rfl : u.name = name := ensure_eq_ok_iff.1 hname
    rw [Document.toTable_ofTable hu.sound hu.checked] at htable
    cases htable
    exact ⟨rfl, hu, hp⟩

theorem Coherent.with_trace (h : db.Coherent) (trace : Trace) :
    Coherent { db with trace } := ⟨h.clean, h.loaded⟩

theorem Coherent.forget (h : db.Coherent) : Coherent { db with loaded := [] } :=
  ⟨h.clean, nofun⟩

theorem Coherent.keep (h : db.Coherent) (ht : Lasting t) (hd : Holds db.disk t) :
    Coherent { db with loaded := putTable t.name t db.loaded } := by
  refine ⟨h.clean, ?_⟩
  intro n v hv
  simp only [lookup_putTable] at hv
  split at hv
  · rename_i hn
    cases hv
    exact ⟨hn.symm, ht, hd⟩
  · exact h.loaded n v hv

/-- Any table may be kept if it is saved at once. -/
theorem Coherent.commit (h : db.Coherent) (ht : Lasting t) :
    (saved t { db with loaded := putTable t.name t db.loaded }).Coherent := by
  have hclean : IsClean { db with loaded := putTable t.name t db.loaded }.disk := h.clean
  refine ⟨hclean.saved ht, ?_⟩
  intro n v hv
  simp only [saved, lookup_putTable] at hv
  split at hv
  · rename_i hn
    cases hv
    exact ⟨hn.symm, ht, holds_saved t _⟩
  · rename_i hn
    obtain ⟨hname, hv, hd⟩ := h.loaded n v hv
    exact ⟨hname, hv, holds_saved_of_ne hd (hname ▸ hn)⟩

end Database
end RelStore
