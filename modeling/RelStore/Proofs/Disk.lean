import RelStore.Disk.Save

/-! Saving under a name in the directory itself, by way of a new file whose name is free: what
the steps leave at every path. -/
namespace RelStore
namespace Disk
variable {d d₁ d' : Disk} {file : String} {bytes : List UInt8}

/-- A name that does not lead through folders. -/
structure IsPlain (file : String) : Prop where
  legal : isIllegal file = false
  relative : isAbsolute file = false
  single : components file = [file]
  named : (file != "" && file != "." && file != "..") = true

structure IsDirect (file : String) : Prop extends IsPlain file where
  short : fits file = true

theorem IsDirect.entry (h : IsDirect file) : isEntry file = true := by
  rw [isEntry, h.named, h.short]
  rfl

theorem IsPlain.direct_of_isEntry (h : IsPlain file) (hentry : isEntry file = true) :
    IsDirect file := by
  simp only [isEntry, Bool.and_eq_true] at hentry
  exact ⟨h, hentry.2⟩

theorem enter?_entry (h : isEntry file = true) (folder : Path) :
    enter? folder file = some (folder ++ [file]) := by
  simp only [isEntry, Bool.and_eq_true, bne_iff_ne, ne_eq] at h
  obtain ⟨⟨⟨hempty, hdot⟩, hdots⟩, hshort⟩ := h
  simp [enter?, hempty, hdot, hdots, hshort]

theorem IsPlain.find (h : IsPlain file) (hd : d.node? [] = some .folder) :
    d.find file =
      if fits file then
        match d.node? [file] with
        | some n => .node n
        | none => .missing
      else .refused := by
  have hnamed := h.named
  simp only [Bool.and_eq_true, bne_iff_ne, ne_eq] at hnamed
  obtain ⟨⟨hempty, hdot⟩, hdots⟩ := hnamed
  rw [Disk.find, h.legal, h.relative, h.single]
  cases hfits : fits file with
  | false => simp [follow, enter?, hd, hempty, hdot, hdots, hfits]
  | true =>
    cases hn : d.node? [file] <;> simp [follow, enter?, hd, hempty, hdot, hdots, hfits, hn]

theorem IsDirect.find (h : IsDirect file) (hd : d.node? [] = some .folder) :
    d.find file = match d.node? [file] with
      | some n => .node n
      | none => .missing := by
  rw [h.toIsPlain.find hd, if_pos h.short]

theorem IsPlain.folder_of_find (h : IsPlain file) {n : Node} (hf : d.find file = .node n) :
    d.node? [] = some .folder := by
  rw [Disk.find, h.legal, h.relative, h.single] at hf
  simp only [Bool.false_eq_true, if_false, follow] at hf
  split at hf
  · assumption
  · split at hf <;> cases hf
  · cases hf
  · cases hf

theorem IsPlain.direct_of_find (h : IsPlain file) {n : Node} (hf : d.find file = .node n) :
    IsDirect file := by
  refine ⟨h, ?_⟩
  rw [h.find (h.folder_of_find hf)] at hf
  split at hf
  · assumption
  · cases hf

theorem IsDirect.node?_of_find (h : IsDirect file) {n : Node} (hf : d.find file = .node n) :
    d.node? [] = some .folder ∧ d.node? [file] = some n := by
  have hroot := h.folder_of_find hf
  rw [h.find hroot] at hf
  split at hf
  · rename_i m hm
    cases hf
    exact ⟨hroot, hm⟩
  · cases hf

theorem IsPlain.placeOf?_eq (h : IsPlain file) :
    d.placeOf? file =
      if d.node? [] = some .folder ∧ isEntry file then some [file] else none := by
  simp [placeOf?, h.legal, h.relative, h.single, place?]

theorem IsPlain.direct_of_placeOf? (h : IsPlain file) {q : Path}
    (hq : d.placeOf? file = some q) : IsDirect file ∧ q = [file] := by
  rw [h.placeOf?_eq] at hq
  split at hq
  · rename_i hc
    obtain ⟨-, hentry⟩ := hc
    exact ⟨h.direct_of_isEntry hentry, (Option.some.inj hq).symm⟩
  · cases hq

theorem makeDirectory_eq_some_iff :
    d.makeDirectory = some d₁ ↔
      (d.node? [] = some .folder ∧ d₁ = d) ∨ (d.node? [] = none ∧ d₁ = d.put [] .folder) := by
  unfold makeDirectory
  cases hn : d.node? [] with
  | none => simp [eq_comm]
  | some n => cases n <;> simp [eq_comm]

theorem makeDirectory_folder (h : d.makeDirectory = some d₁) : d₁.node? [] = some .folder := by
  rcases makeDirectory_eq_some_iff.1 h with ⟨hd, rfl⟩ | ⟨-, rfl⟩
  · exact hd
  · rw [node?_put, if_pos rfl]

theorem node?_fresh_made (h : d.makeDirectory = some d₁) : d₁.node? [d.fresh] = none := by
  rcases makeDirectory_eq_some_iff.1 h with ⟨-, rfl⟩ | ⟨-, rfl⟩
  · exact d₁.node?_fresh
  · rw [node?_put, if_neg (by simp), d.node?_fresh]

/-- Puts content under a file name on a device that refuses nothing. -/
def save (d : Disk) (file : String) (bytes : List UInt8) : Bool × Disk :=
  match d.saveOn .willing false file bytes with
  | (.ok (), d') => (true, d')
  | (.error _, d') => (false, d')

def prepared (d : Disk) (temporary : String) (bytes : List UInt8) : Disk :=
  (d.put [temporary] (.file [])).put [temporary] (.file bytes)

theorem node?_prepared (d : Disk) (temporary : String) (bytes : List UInt8) (p : Path) :
    (d.prepared temporary bytes).node? p =
      if p = [temporary] then some (.file bytes) else d.node? p := by
  rw [prepared, node?_put, node?_put]
  split <;> rfl

theorem remove_of_node?_eq_none {p : Path} (h : d.node? p = none) : d.remove p = d := by
  obtain ⟨l⟩ := d
  refine congrArg Disk.mk (List.filter_eq_self.2 fun e he => ?_)
  have hne := List.lookup_eq_none_iff.1 h e he
  rw [bne_iff_ne] at hne
  simpa using Ne.symm hne

theorem remove_put (d : Disk) (p : Path) (n : Node) : (d.put p n).remove p = d.remove p := by
  obtain ⟨l⟩ := d
  refine congrArg Disk.mk ?_
  simp only [put]
  induction l with
  | nil => simp [putNode]
  | cons e rest ih =>
    rw [putNode]
    split
    · rename_i he
      simp [he]
    · simp only [List.filter_cons, ih]

theorem remove_prepared {temporary : String} (h : d.node? [temporary] = none)
    (bytes : List UInt8) : (d.prepared temporary bytes).remove [temporary] = d := by
  rw [prepared, remove_put, remove_put, remove_of_node?_eq_none h]

theorem rename_eq_some_iff {temporary : String} (hfile : d₁.node? [temporary] = some (.file bytes)) :
    d₁.step (.rename [temporary] file) = some d' ↔
      ∃ q, d₁.placeOf? file = some q ∧ d₁.node? q ≠ some .folder ∧
        d' = (d₁.remove [temporary]).put q (.file bytes) := by
  simp only [step, hfile]
  cases hplace : d₁.placeOf? file with
  | none => simp
  | some q =>
    by_cases hfolder : d₁.node? q = some .folder
    · simp [hfolder]
    · simp [hfolder, @eq_comm _ _ d']

theorem perform_willing (k : Nat) (s : Step) (rest : List Step) (d : Disk) :
    perform Device.willing.refuses k (s :: rest) d = match d.step s with
      | some d₁ => perform Device.willing.refuses (k + 1) rest d₁
      | none => (.error s.refusal, d) := by
  rw [perform]
  exact if_neg (by simp [Device.willing])

theorem commit_willing_none (h : d.makeDirectory = none) (sync : Bool) (file : String)
    (bytes : List UInt8) : d.commit .willing sync file bytes = (.error .io, d) := by
  have hstep : d.step .makeDirectory = none := h
  show perform Device.willing.refuses 0 (.makeDirectory :: _) d = _
  rw [perform_willing, hstep]
  rfl

theorem commit_willing (h : d.makeDirectory = some d₁) (sync : Bool) (file : String)
    (bytes : List UInt8) :
    d.commit .willing sync file bytes =
      match (d₁.prepared d.fresh bytes).step (.rename [d.fresh] file) with
      | none => (.error .io, d₁.prepared d.fresh bytes)
      | some d' => (.ok (), d') := by
  have hmake : d.step .makeDirectory = some d₁ := h
  have hcreate : d₁.step (.createFile [d.fresh]) = some (d₁.put [d.fresh] (.file [])) := rfl
  have happend : (d₁.put [d.fresh] (.file [])).step (.append [d.fresh] bytes true) =
      some (d₁.prepared d.fresh bytes) := by
    simp [step, node?_put, prepared]
  have hsync : (d₁.prepared d.fresh bytes).step (.syncFile [d.fresh]) =
      some (d₁.prepared d.fresh bytes) := rfl
  have hrename : ∀ k, perform Device.willing.refuses k [.rename [d.fresh] file]
      (d₁.prepared d.fresh bytes) =
        match (d₁.prepared d.fresh bytes).step (.rename [d.fresh] file) with
        | none => (.error .io, d₁.prepared d.fresh bytes)
        | some d' => (.ok (), d') := fun k => by
    rw [perform_willing]
    cases (d₁.prepared d.fresh bytes).step (.rename [d.fresh] file) <;> rfl
  show perform Device.willing.refuses 0 (.makeDirectory :: .createFile [d.fresh] ::
    .append [d.fresh] bytes true ::
      ((if sync then [.syncFile [d.fresh]] else []) ++ [.rename [d.fresh] file])) d = _
  simp only [perform_willing, hmake, hcreate, happend]
  cases sync with
  | false => exact hrename 3
  | true =>
    show perform Device.willing.refuses 3 (.syncFile [d.fresh] :: [.rename [d.fresh] file]) _ = _
    simp only [perform_willing, hsync]
    exact hrename 4

/-- A save on a device that refuses nothing fails only if there can be no directory, or the new
file cannot be renamed. -/
theorem saveOn_willing (d : Disk) (sync : Bool) (file : String) (bytes : List UInt8) :
    d.saveOn .willing sync file bytes = match d.makeDirectory with
      | none => (.error .io, d)
      | some d₁ =>
        match (d₁.prepared d.fresh bytes).step (.rename [d.fresh] file) with
        | none => (.error .io, d₁)
        | some d' => (.ok (), d') := by
  cases hmake : d.makeDirectory with
  | none =>
    rw [saveOn, commit_willing_none hmake]
    exact congrArg (Prod.mk _) (remove_of_node?_eq_none (node?_fresh d))
  | some d₁ =>
    rw [saveOn, commit_willing hmake]
    cases hrename : (d₁.prepared d.fresh bytes).step (.rename [d.fresh] file) with
    | none =>
      simp only [hrename]
      exact congrArg (Prod.mk _) (remove_prepared (node?_fresh_made hmake) bytes)
    | some d' =>
      simp only [hrename]
      cases sync <;> rfl

/-- Whether files are synchronized is all the same to such a save. -/
theorem saveOn_willing_eq (d : Disk) (sync : Bool) (file : String) (bytes : List UInt8) :
    d.saveOn .willing sync file bytes = match d.save file bytes with
      | (true, d') => (.ok (), d')
      | (false, d') => (.error .io, d') := by
  rw [save, saveOn_willing, saveOn_willing]
  cases d.makeDirectory with
  | none => rfl
  | some d₁ =>
    cases hrename : (d₁.prepared d.fresh bytes).step (.rename [d.fresh] file) with
    | none => simp only [hrename]
    | some d₂ => simp only [hrename]

theorem save_eq_true_iff : d.save file bytes = (true, d') ↔
    ∃ d₁, d.makeDirectory = some d₁ ∧
      (d₁.prepared d.fresh bytes).step (.rename [d.fresh] file) = some d' := by
  rw [save, saveOn_willing]
  cases d.makeDirectory with
  | none => simp
  | some d₁ =>
    cases hrename : (d₁.prepared d.fresh bytes).step (.rename [d.fresh] file) with
    | none => simp [hrename]
    | some d₂ => simp [hrename]

/-- A save that fails leaves nothing new but the directory. -/
theorem save_eq_false (h : d.save file bytes = (false, d')) :
    d' = d ∨ d.makeDirectory = some d' := by
  rw [save, saveOn_willing] at h
  cases hmake : d.makeDirectory with
  | none =>
    simp only [hmake] at h
    cases h
    exact .inl rfl
  | some d₁ =>
    simp only [hmake] at h
    cases hrename : (d₁.prepared d.fresh bytes).step (.rename [d.fresh] file) with
    | none =>
      simp only [hrename] at h
      cases h
      exact .inr rfl
    | some d₂ => simp [hrename] at h

def replaced (d : Disk) (temporary file : String) (bytes : List UInt8) : Disk :=
  (((d.put [temporary] (.file [])).put [temporary] (.file bytes)).remove [temporary]).put [file]
    (.file bytes)

theorem node?_replaced (d : Disk) (temporary file : String) (bytes : List UInt8) (p : Path) :
    (d.replaced temporary file bytes).node? p =
      if p = [file] then some (.file bytes)
      else if p = [temporary] then none
      else d.node? p := by
  simp only [replaced, node?_put, node?_remove]
  split
  · rfl
  · split
    · rfl
    · rfl

/-- A save succeeds exactly if there can be a directory for it, the name is not too long, and no
folder has it. -/
theorem IsPlain.save_eq_true_iff (h : IsPlain file) : d.save file bytes = (true, d') ↔
    ∃ d₁, d.makeDirectory = some d₁ ∧ fits file = true ∧
      (file ≠ d.fresh → d₁.node? [file] ≠ some .folder) ∧
      d' = d₁.replaced d.fresh file bytes := by
  rw [Disk.save_eq_true_iff]
  refine exists_congr fun d₁ => and_congr_right fun hmake => ?_
  have hroot : (d₁.prepared d.fresh bytes).node? [] = some .folder := by
    rw [node?_prepared, if_neg (by simp), makeDirectory_folder hmake]
  rw [rename_eq_some_iff ((node?_prepared ..).trans (if_pos rfl))]
  constructor
  · rintro ⟨q, hplace, hfolder, rfl⟩
    obtain ⟨hdirect, rfl⟩ := h.direct_of_placeOf? hplace
    refine ⟨hdirect.short, fun hne => ?_, rfl⟩
    rwa [node?_prepared, if_neg fun hp => hne (List.cons.inj hp).1] at hfolder
  · rintro ⟨hshort, hfolder, rfl⟩
    have hentry := IsDirect.entry ⟨h, hshort⟩
    refine ⟨[file], by rw [h.placeOf?_eq, if_pos ⟨hroot, hentry⟩], ?_, rfl⟩
    rw [node?_prepared]
    split
    · nofun
    · rename_i hne
      exact hfolder fun hf => hne (by rw [hf])

theorem IsDirect.save_eq (h : IsDirect file) (hd : d.makeDirectory = some d₁)
    (hfolder : d₁.node? [file] ≠ some .folder) :
    d.save file bytes = (true, d₁.replaced d.fresh file bytes) :=
  h.save_eq_true_iff.2 ⟨d₁, hd, h.short, fun _ => hfolder, rfl⟩

theorem IsPlain.save_eq_true (h : IsPlain file) (hs : d.save file bytes = (true, d')) :
    IsDirect file ∧ ∃ d₁, d.makeDirectory = some d₁ ∧ d' = d₁.replaced d.fresh file bytes := by
  obtain ⟨d₁, hd, hshort, -, hd'⟩ := h.save_eq_true_iff.1 hs
  exact ⟨⟨h, hshort⟩, d₁, hd, hd'⟩

theorem IsPlain.save_long (h : IsPlain file) (hlong : fits file = false)
    (hroot : d.node? [] = some .folder) : d.save file bytes = (false, d) := by
  rcases hs : d.save file bytes with ⟨_ | _, d'⟩
  · rcases save_eq_false hs with rfl | hmake
    · rfl
    · rcases makeDirectory_eq_some_iff.1 hmake with ⟨-, rfl⟩ | ⟨hnone, -⟩
      · rfl
      · cases hroot.symm.trans hnone
  · cases hlong.symm.trans (h.save_eq_true hs).1.short

theorem IsPlain.find_of_save (h : IsPlain file) (hs : d.save file bytes = (true, d')) :
    d'.find file = .node (.file bytes) := by
  obtain ⟨hdirect, d₁, hd, rfl⟩ := h.save_eq_true hs
  have hroot : (d₁.replaced d.fresh file bytes).node? [] = some .folder := by
    simp [node?_replaced, makeDirectory_folder hd]
  have hfile : (d₁.replaced d.fresh file bytes).node? [file] = some (.file bytes) := by
    rw [node?_replaced, if_pos rfl]
  rw [hdirect.find hroot, hfile]

end Disk
end RelStore
