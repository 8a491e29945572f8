import RelStore.Proofs.Database.Actions
import RelStore.Proofs.Disk
import RelStore.Proofs.Document

/-! Tables and their files: what is saved is loaded again. -/
namespace RelStore
namespace Database

theorem isName_char {name : String} (h : isName name = true) {c : Char}
    (hc : c ∈ name.toList) : (c.isAlphanum || c == '_') = true := by
  unfold isName at h
  split at h
  · cases h
  · rename_i a cs hn
    rw [hn] at hc
    simp only [Bool.and_eq_true, List.all_eq_true] at h
    rcases List.mem_cons.1 hc with rfl | hc
    · have ha := h.1
      simp only [Bool.or_eq_true, Char.isAlphanum] at ha ⊢
      rcases ha with ha | ha
      · exact .inl (.inl ha)
      · exact .inr ha
    · exact h.2 c hc

theorem isName_ne_nil {name : String} (h : isName name = true) : name.toList ≠ [] := by
  intro hn
  rw [isName, hn] at h
  cases h

theorem not_mem_of_isName {name : String} (h : isName name = true) {c : Char}
    (hc : (c.isAlphanum || c == '_') = false) : c ∉ name.toList := by
  intro hm
  rw [isName_char h hm] at hc
  cases hc

theorem toList_tableFile (name : String) :
    (tableFile name).toList = name.toList ++ ['.', 'j', 's', 'o', 'n'] := by
  rw [tableFile, String.toList_append]
  rfl

/-- The file of a name without a slash does not lie in a folder. -/
theorem isPlain_of_not_mem {name : String} (hslash : '/' ∉ name.toList)
    (hnul : Char.ofNat 0 ∉ name.toList) : Disk.IsPlain (tableFile name) := by
  have hfile := toList_tableFile name
  have hnot : ∀ c, c ∉ name.toList → c ∉ ['.', 'j', 's', 'o', 'n'] →
      c ∉ (tableFile name).toList := by
    intro c hname hext
    rw [hfile, List.mem_append]
    exact not_or.2 ⟨hname, hext⟩
  have hnoslash := hnot '/' hslash (by decide)
  have hnonul := hnot (Char.ofNat 0) hnul (by decide)
  refine ⟨?_, ?_, ?_, ?_⟩
  · rw [Disk.isIllegal, List.any_eq_false]
    intro c hc hzero
    have hc0 : c = Char.ofNat 0 := Char.toNat_inj.1 (by simpa using hzero)
    exact hnonul (hc0 ▸ hc)
  · rw [Disk.isAbsolute, String.startsWith_string_eq_false_iff]
    intro hp
    exact hnoslash (hp.subset (by decide : '/' ∈ "/".toList))
  · have hall : ∀ c ∈ (tableFile name).toList, (c == '/') = false := by
      intro c hc
      rw [beq_eq_false_iff_ne]
      rintro rfl
      exact hnoslash hc
    rw [Disk.components, List.splitOn_eq_splitOnP, List.splitOnP_eq_singleton hall]
    simp
  · have hlong : 5 ≤ (tableFile name).toList.length := by
      rw [hfile, List.length_append]
      simp only [List.length_cons, List.length_nil]
      omega
    have hne : ∀ s : String, s.toList.length < 5 → tableFile name ≠ s := by
      rintro s hs rfl
      omega
    simp only [Bool.and_eq_true, bne_iff_ne, ne_eq]
    exact ⟨⟨hne "" (by decide), hne "." (by decide)⟩, hne ".." (by decide)⟩

theorem isPlain_tableFile {name : String} (h : isName name = true) :
    Disk.IsPlain (tableFile name) :=
  isPlain_of_not_mem (not_mem_of_isName h (by decide)) (not_mem_of_isName h (by decide))

/-- The database after a table was saved. -/
def saved (t : Table) (db : Database) : Database :=
  { db with
    disk := db.disk.replaced db.disk.fresh (tableFile t.name) (Document.ofTable t).encode
    trace := .event (.saved t.name t.size (db.settings.tablePath t.name)) :: db.trace }

theorem run_save_eq_saved {t : Table} {db : Database} (hn : Disk.IsDirect (tableFile t.name))
    (hd : db.disk.node? [] = some .folder)
    (hf : db.disk.node? [tableFile t.name] ≠ some .folder) :
    (save t).run.run db = (.ok (), saved t db) := by
  have hmake : db.disk.makeDirectory = some db.disk :=
    Disk.makeDirectory_eq_some_iff.2 (.inl ⟨hd, rfl⟩)
  rw [run_save, hn.save_eq hmake hf]
  rfl

theorem find_of_run_save {t : Table} (hn : Disk.IsPlain (tableFile t.name)) {db db' : Database}
    (h : (save t).run.run db = (.ok (), db')) :
    db'.disk.find (tableFile t.name) = .node (.file (Document.ofTable t).encode) := by
  rw [run_save] at h
  split at h
  · rename_i disk hdisk
    cases h
    exact hn.find_of_save hdisk
  · cases h

theorem readTable_of_find {settings : Settings} {disk : Disk} {t : Table}
    (h : disk.find (tableFile t.name) = .node (.file (Document.ofTable t).encode)) :
    readTable settings disk t.name =
      (Document.ofTable t).toTable (settings.tablePath t.name) t.name := by
  rw [readTable, h]
  simp only [Document.decode?_encode (Document.ofValues_ofTable t)]

theorem readTable_of_save {t : Table} (ht : t.Sound) (hs : t.schema.check = .ok ())
    (hn : Disk.IsPlain (tableFile t.name)) {db db' : Database}
    (h : (save t).run.run db = (.ok (), db')) :
    readTable db'.settings db'.disk t.name = .ok t := by
  rw [readTable_of_find (find_of_run_save hn h), Document.toTable_ofTable ht hs]

theorem load_of_save {t : Table} (ht : t.Sound) (hs : t.schema.check = .ok ())
    (hn : isName t.name = true) {db db' : Database}
    (h : (save t).run.run db = (.ok (), db')) :
    (load t.name).run.run db' =
      (.ok t, { db' with trace := .event (.loaded t.name t.size) :: db'.trace }) := by
  rw [run_load, readTable_of_save ht hs (isPlain_tableFile hn) h]

/-- A table of a schema with any columns and foreign keys, after any calls, is loaded as it
was saved: with its schema, its rows and its answers. -/
theorem load_save_reachable {name : String} {columns : List Column} {keys : List ForeignKey}
    {t : Table} (hn : isName name = true)
    (ht : Table.Reachable ((Schema.ofColumns name columns).withForeignKeys keys) t)
    {db db' : Database} (h : (save t).run.run db = (.ok (), db')) :
    ∃ u, ((load name).run.run db').1 = .ok u ∧
      u.schema = (Schema.ofColumns name columns).withForeignKeys keys ∧
      u.schema = t.schema ∧ u.entries = t.entries ∧
      ∀ column v, u.find column v = t.find column v := by
  have hlisted := Schema.listed_ofColumns name columns keys
  obtain ⟨hs, hschema⟩ := ht.schema
  rw [hlisted.relist_eq] at hschema
  have hname : t.name = name := congrArg Schema.name hschema
  subst hname
  have hload := load_of_save ht.sound (hschema ▸ hs) hn h
  exact ⟨t, congrArg Prod.fst hload, hschema, rfl, rfl, fun _ _ => rfl⟩

def notes : Schema :=
  let columns := [⟨"id", .int, true, false⟩, ⟨"the \"text\"", .text, false, true⟩]
  (Schema.ofColumns "notes" columns).withForeignKeys
    [⟨"the \"text\"", "books\n", "\\title\x00"⟩]

theorem load_save_notes :
    ∃ t db db' u, Table.Reachable notes t ∧
      t.allRows = [[.int Int64.minValue, .text "\"\\\x01é"]] ∧
      (save t).run.run db = (.ok (), db') ∧ ((load "notes").run.run db').1 = .ok u ∧
      u.entries = t.entries := by
  have hc : Table.create notes =
      .ok ⟨notes, 0, .empty, Table.emptyIndexes 0 notes.columns⟩ := by rfl
  have ht := (Table.Reachable.create hc).call (.insert [.int Int64.minValue, .text "\"\\\x01é"])
  have hname : Table.name _ = "notes" := congrArg Schema.name ht.schema.2
  have hnotes : isName "notes" = true := by decide
  have hdirect : Disk.IsDirect (tableFile "notes") := ⟨isPlain_tableFile hnotes, by decide⟩
  have hsave : (save _).run.run ⟨default, [], .empty, []⟩ = (.ok (), saved _ _) :=
    run_save_eq_saved (hname ▸ hdirect) rfl (by rw [hname]; decide)
  obtain ⟨u, hu, -, -, he, -⟩ := load_save_reachable hnotes ht hsave
  exact ⟨_, _, _, u, ht, by rfl, hsave, hu, he⟩

end Database
end RelStore
