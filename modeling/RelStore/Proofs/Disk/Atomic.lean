import RelStore.Proofs.Disk.Failure

/-! Saves that are cut off. The steps before the last one write the whole content to a new
file, and the last one puts this file in its place. So wherever a save ends, each place
holds what it held before, or one place the whole new content. -/
namespace RelStore
namespace Disk
variable {d d₁ d' : Disk} {temporary file : String} {refuses : Nat → Bool} {k : Nat} {q : Path}
  {sync : Bool} {bytes : List UInt8} {e : Error}

theorem node?_appended {pieces : List (List UInt8)} {flushed : Bool} {old : List UInt8}
    (hold : d.node? [temporary] = some (.file old))
    (h : perform refuses k (pieces.map (.append [temporary] · flushed)) d = (.ok (), d')) :
    d'.node? [temporary] = some (.file (old ++ pieces.flatten)) := by
  induction pieces generalizing d k old with
  | nil =>
    cases h
    simpa using hold
  | cons piece rest ih =>
    obtain ⟨d₁, hstep, hrest⟩ := perform_cons_ok h
    simp only [step, hold] at hstep
    cases hstep
    rw [ih (by rw [node?_put, if_pos rfl]) hrest, List.flatten_cons, List.append_assoc]

theorem node?_of_prepareSteps {pieces : List (List UInt8) × List (List UInt8)}
    (h : perform refuses k (prepareSteps sync temporary pieces) d = (.ok (), d₁)) :
    d₁.node? [temporary] = some (.file (pieces.1 ++ pieces.2).flatten) := by
  obtain ⟨d₂, hwritten, hsynced⟩ := perform_append_ok h
  obtain ⟨d₃, hmade, hflushed⟩ := perform_append_ok hwritten
  obtain ⟨d₄, -, hmade⟩ := perform_cons_ok hmade
  obtain ⟨d₅, hcreate, hmade⟩ := perform_cons_ok hmade
  cases hcreate
  have hnew := node?_appended (by rw [node?_put, if_pos rfl]) hmade
  have hwhole := node?_appended hnew hflushed
  have hsame : d₁ = d₂ := by
    cases sync with
    | false =>
      cases hsynced
      rfl
    | true =>
      obtain ⟨d₆, hsync, hdone⟩ := perform_cons_ok hsynced
      cases hsync
      cases hdone
      rfl
  rw [hsame, hwhole, List.nil_append, List.flatten_append]

theorem place?_ne_nil {folder p : Path} (h : d.place? folder p = some q) : q ≠ [] := by
  induction p generalizing folder with
  | nil => cases h
  | cons c rest ih =>
    cases rest with
    | nil =>
      simp only [place?] at h
      split at h
      · cases h
        simp
      · cases h
    | cons c' rest =>
      simp only [place?] at h
      split at h
      · exact ih h
      · cases h

theorem place?_congr (h : ∀ p, d'.node? p = some .folder ↔ d.node? p = some .folder)
    (folder p : Path) : d'.place? folder p = d.place? folder p := by
  induction p generalizing folder with
  | nil => rfl
  | cons c rest ih =>
    cases rest with
    | nil => simp only [place?, h folder]
    | cons c' rest =>
      simp only [place?]
      by_cases hf : d.node? folder = some .folder
      · rw [hf, (h folder).2 hf]
        simp only [ih]
      · have hf' : d'.node? folder ≠ some .folder := fun h' => hf ((h folder).1 h')
        split
        · rename_i hfolder _
          exact absurd hfolder hf'
        · split
          · rename_i hfolder _
            exact absurd hfolder hf
          · rfl

theorem follow_of_place? {folder p : Path} {n : Node} (h : d.place? folder p = some q)
    (hq : d.node? q = some n) : d.follow folder p = .node n := by
  induction p generalizing folder with
  | nil => cases h
  | cons c rest ih =>
    cases rest with
    | nil =>
      simp only [place?] at h
      split at h
      · rename_i hc
        obtain ⟨hfolder, hentry⟩ := hc
        cases h
        simp [follow, hfolder, enter?_entry hentry, hq]
      · cases h
    | cons c' rest =>
      simp only [place?] at h
      split at h
      · rename_i next hfolder hnext
        rw [follow, hfolder, hnext]
        exact ih h
      · cases h

theorem placeOf?_eq_some_iff : d.placeOf? file = some q ↔
    (isIllegal file || isAbsolute file) = false ∧ d.place? [] (components file) = some q := by
  unfold placeOf?
  cases isIllegal file || isAbsolute file <;> simp

theorem find_of_placeOf? {n : Node} (h : d.placeOf? file = some q) (hq : d.node? q = some n) :
    d.find file = .node n := by
  obtain ⟨hname, hplace⟩ := placeOf?_eq_some_iff.1 h
  rw [Bool.or_eq_false_iff] at hname
  rw [find, hname.1, hname.2]
  exact follow_of_place? hplace hq

theorem placeOf?_congr (h : ∀ p, d'.node? p = some .folder ↔ d.node? p = some .folder)
    (file : String) : d'.placeOf? file = d.placeOf? file := by
  rw [placeOf?, placeOf?, place?_congr h]

/-- A file is what it was but for one place. The directory may have been made for it. -/
structure Replaces (q : Path) (bytes : List UInt8) (d d' : Disk) : Prop where
  root : SameRoot d d'
  file : d'.node? q = some (.file bytes)
  others : ∀ p, p ≠ [] → p ≠ q → d'.node? p = d.node? p

/-- The step that puts the new file in its place. -/
theorem replaces_of_rename (hnew : d.node? [temporary] = none)
    (hbesides : Besides temporary d d₁) (hfile : d₁.node? [temporary] = some (.file bytes))
    (h : d₁.step (.rename [temporary] file) = some d') :
    ∃ q, d'.placeOf? file = some q ∧ Replaces q bytes d d' := by
  obtain ⟨q, hplace, hfolder, rfl⟩ := (rename_eq_some_iff hfile).1 h
  have hnode : ∀ p, ((d₁.remove [temporary]).put q (.file bytes)).node? p =
      if p = q then some (.file bytes) else if p = [temporary] then none else d₁.node? p := by
    intro p
    rw [node?_put, node?_remove]
  have hq : q ≠ [] := place?_ne_nil (placeOf?_eq_some_iff.1 hplace).2
  refine ⟨q, ?_, ?_, ?_, fun p hp hpq => ?_⟩
  · -- no folder has come or gone
    rw [← hplace]
    refine placeOf?_congr (fun p => ?_) file
    rw [hnode]
    split
    · rename_i hpq
      simp [hpq, hfolder]
    · split
      · rename_i hp
        simp [hp, hfile]
      · rfl
  · rw [SameRoot, hnode, if_neg (Ne.symm hq), if_neg (by simp)]
    exact hbesides.root
  · rw [hnode, if_pos rfl]
  · rw [hnode, if_neg hpq]
    split
    · rename_i ht
      rw [ht, hnew]
    · rename_i ht
      exact hbesides.nodes p hp ht

theorem replaces_of_commit {device : Device}
    (h : d.commit device sync file bytes = (.ok (), d')) :
    ∃ q, d'.placeOf? file = some q ∧ Replaces q bytes d d' ∧
      d'.find file = .node (.file bytes) := by
  obtain ⟨d₁, hprepared, hlast⟩ := perform_append_ok h
  obtain ⟨d₂, hrename, hdone⟩ := perform_cons_ok hlast
  cases hdone
  have hfile := node?_of_prepareSteps hprepared
  rw [device.whole bytes] at hfile
  have hbesides := besides_perform prepares_prepareSteps hprepared
  obtain ⟨q, hplace, hreplaces⟩ := replaces_of_rename (device.free d) hbesides hfile hrename
  exact ⟨q, hplace, hreplaces, find_of_placeOf? hplace hreplaces.file⟩

theorem commit_of_save (h : d.save file bytes = (true, d')) :
    d.commit .willing false file bytes = (.ok (), d') := by
  have hsave := saveOn_willing_eq d false file bytes
  rw [h] at hsave
  rcases saveOn_cases hsave with ⟨e, d₁, -, he, -⟩ | ⟨hcommit, -⟩
  · cases he
  · exact hcommit

theorem sameNodes_of_save (h : d.save file bytes = (false, d')) : SameNodes d d' := by
  rcases save_eq_false h with rfl | hmake
  · exact .refl d'
  · exact sameNodes_makeDirectory hmake

theorem IsPlain.replaces_of_save (h : IsPlain file) (hs : d.save file bytes = (true, d')) :
    IsDirect file ∧ d'.node? [] = some .folder ∧ Replaces [file] bytes d d' := by
  obtain ⟨q, hplace, hreplaces, -⟩ := replaces_of_commit (commit_of_save hs)
  obtain ⟨hdirect, rfl⟩ := h.direct_of_placeOf? hplace
  exact ⟨hdirect, h.folder_of_find (h.find_of_save hs), hreplaces⟩

/-- What is found is in its place, though the place is known only from another directory. -/
theorem place?_of_follow {folder p : Path} {n : Node} (hf : d.follow folder p = .node n)
    (hp : d'.place? folder p = some q) :
    d.node? folder = some .folder ∧ d.place? folder p = some q ∧ d.node? q = some n := by
  induction p generalizing folder with
  | nil => cases hp
  | cons c rest ih =>
    rw [follow] at hf
    split at hf
    · rename_i next hfolder hnext
      refine ⟨hfolder, ?_⟩
      cases rest with
      | nil =>
        simp only [place?] at hp ⊢
        split at hp
        · rename_i hc
          cases hp
          rw [enter?_entry hc.2] at hnext
          cases hnext
          refine ⟨if_pos ⟨hfolder, hc.2⟩, ?_⟩
          rw [follow] at hf
          split at hf
          · rename_i hn
            cases hf
            exact hn
          · cases hf
        · cases hp
      | cons c' rest =>
        simp only [place?, hfolder, hnext]
        simp only [place?, hnext] at hp
        split at hp
        · rename_i heq
          cases heq
          exact (ih hf hp).2
        · cases hp
    · split at hf <;> cases hf
    · cases hf
    · cases hf

/-- A save over a file changes this file alone. -/
theorem node?_of_save {old : List UInt8} (hold : d.find file = .node (.file old))
    (h : d.save file bytes = (true, d')) :
    d'.find file = .node (.file bytes) ∧ ∃ q, d.placeOf? file = some q ∧
      d.node? q = some (.file old) ∧
      ∀ p, d'.node? p = if p = q then some (.file bytes) else d.node? p := by
  obtain ⟨q, hplace, hreplaces, hfind⟩ := replaces_of_commit (commit_of_save h)
  obtain ⟨hname, hplace⟩ := placeOf?_eq_some_iff.1 hplace
  have hfollow : d.follow [] (components file) = .node (.file old) := by
    rw [Bool.or_eq_false_iff] at hname
    rw [find, hname.1, hname.2] at hold
    exact hold
  obtain ⟨hroot, hplace', hfile⟩ := place?_of_follow hfollow hplace
  refine ⟨hfind, q, placeOf?_eq_some_iff.2 ⟨hname, hplace'⟩, hfile, fun p => ?_⟩
  split
  · rename_i hp
    rw [hp, hreplaces.file]
  · rename_i hp
    by_cases hnil : p = []
    · rcases hreplaces.root with hsame | ⟨hnone, -⟩
      · rw [hnil, hsame]
      · cases hroot.symm.trans hnone
    · exact hreplaces.others p hnil hp

theorem folder_of_place? {folder p : Path} (h : d.place? folder p = some q) :
    d.node? folder = some .folder := by
  cases p with
  | nil => cases h
  | cons c rest =>
    cases rest with
    | nil =>
      rw [place?] at h
      split at h
      · rename_i hc
        exact hc.1
      · cases h
    | cons c' rest =>
      simp only [place?] at h
      split at h
      · rename_i hfolder _
        exact hfolder
      · cases h

theorem save_over {old : List UInt8} (hplace : d.placeOf? file = some q)
    (hfile : d.node? q = some (.file old)) (bytes : List UInt8) :
    (d.save file bytes).1 = true := by
  have hmake : d.makeDirectory = some d := makeDirectory_eq_some_iff.2
    (.inl ⟨folder_of_place? (placeOf?_eq_some_iff.1 hplace).2, rfl⟩)
  -- the new file is no folder and has taken the place of none
  have hfolders : ∀ p, (d.prepared d.fresh bytes).node? p = some .folder ↔
      d.node? p = some .folder := by
    intro p
    rw [node?_prepared]
    split
    · rename_i hp
      simp [hp, node?_fresh]
    · rfl
  have hrename := (rename_eq_some_iff ((node?_prepared d d.fresh bytes _).trans (if_pos rfl))).2
    ⟨q, (placeOf?_congr hfolders file).trans hplace, fun hfolder => ?_, rfl⟩
  · rw [save_eq_true_iff.2 ⟨d, hmake, hrename⟩]
  · cases hfile.symm.trans ((hfolders q).1 hfolder)

theorem save_again (h : d.save file bytes = (true, d')) (bytes' : List UInt8) :
    (d'.save file bytes').1 = true := by
  obtain ⟨q, hplace, hreplaces, -⟩ := replaces_of_commit (commit_of_save h)
  exact save_over hplace hreplaces.file bytes'

end Disk
end RelStore
