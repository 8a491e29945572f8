import RelStore.Proofs.Table.Accepted
import RelStore.Proofs.Table.Legal

/-! Calls that take calls back. A call leaves nothing behind in any index that the call which
takes it back would not remove, so that the table is the same again. -/
namespace RelStore
namespace Table
variable {s : Schema} {t u w : Table} {c : Call} {key : Value} {row new : Row}

theorem Sound.erase_of_insert (h : t.Sound) (hu : t.insert row = .ok u) :
    ∃ key, row[t.keyPosition]? = some key ∧ u.erase key = .ok (row, t) := by
  obtain ⟨key, hkey, hnone, hrows⟩ := row?_of_insert hu
  have hrow : u.row? key = some row := by rw [hrows, if_pos rfl]
  obtain ⟨w, hw⟩ := (h.insert hu).erase_exists hrow
  have hback : ∀ k, w.row? k = t.row? k := by
    intro k
    rw [row?_of_erase hw, hrows]
    split
    · rename_i hk
      rw [← hk, hnone]
    · rfl
  obtain ⟨row', herase⟩ := attempt_erase_eq_ok_iff.1 hw
  have hschema : w.schema = t.schema := (erase_schema herase).trans (insert_schema hu)
  obtain rfl : w = t := ((h.insert hu).erase herase).ext_row? h hschema hback
  obtain rfl : row = row' := Option.some.inj (hrow.symm.trans (erase_eq_ok_iff.1 herase).1)
  exact ⟨key, hkey, herase⟩

theorem Sound.insert_of_erase (h : t.Sound) (hu : t.erase key = .ok (row, u)) :
    u.insert row = .ok t := by
  have hrow : t.row? key = some row := (erase_eq_ok_iff.1 hu).1
  have hrows := row?_of_erase (attempt_erase_eq_ok_iff.2 ⟨row, hu⟩)
  have hsound : u.Sound := h.erase hu
  have hschema : u.schema = t.schema := erase_schema hu
  have hposition : u.keyPosition = t.keyPosition := h.keyPosition_congr hsound hschema
  have hnone : u.row? key = none := by rw [hrows, if_pos rfl]
  have hfree : ∀ (i : Nat) (c : Column), u.schema.columns[i]? = some c → c.isIndexed = true →
      ∀ k r v, u.row? k = some r → row[i]? = some v → r[i]? ≠ some v := by
    intro i c hc hi k r v hr hv hrv
    rw [hrows] at hr
    split at hr
    · cases hr
    · rename_i hk
      exact hk (h.key_unique (hschema ▸ hc) hi hrow hr hv hrv)
  obtain ⟨w, hw, hwrows⟩ := hsound.insert_exists (hschema ▸ h.typed hrow)
    (hposition ▸ h.keyed hrow) hnone hfree
  have hback : ∀ k, w.row? k = t.row? k := by
    intro k
    rw [row?, hwrows, ValueMap.get?_insert]
    split
    · rename_i hk
      rw [← hk, hrow]
    · rename_i hk
      exact (hrows k).trans (if_neg hk)
  rw [hw, (hsound.insert hw).ext_row? h ((insert_schema hw).trans hschema) hback]

theorem Fits.congr (h : Fits t key new) (hs : u.schema = t.schema)
    (hposition : u.keyPosition = t.keyPosition) (hrows : ∀ k, k ≠ key → u.row? k = t.row? k) :
    Fits u key new := by
  refine ⟨hs ▸ h.typed, hposition ▸ h.keyed, fun {i c} hc hi k r hr hne => ?_⟩
  exact h.free (hs ▸ hc) hi ((hrows k hne).symm.trans hr) hne

theorem Sound.update_of_edit {f : Row → Except Error Row} (h : t.Sound)
    (hu : t.edit key f = .ok u) :
    ∃ old, t.row? key = some old ∧ u.update key old = .ok t := by
  obtain ⟨old, new, hold, -, hrows⟩ := row?_of_edit hu
  have hsound : u.Sound := h.edit hu
  have hschema : u.schema = t.schema := edit_schema hu
  have hfits : Fits u key old :=
    (h.fits_self hold).congr hschema (h.keyPosition_congr hsound hschema)
      fun k hk => (hrows k).trans (if_neg (Ne.symm hk))
  have hnew : u.row? key = some new := by rw [hrows, if_pos rfl]
  obtain ⟨w, hw⟩ := hsound.edit_of_fits (f := fun _ => .ok old) hnew rfl hfits
  obtain ⟨new', old', -, hold', hwrows⟩ := row?_of_edit hw
  cases hold'
  have hback : ∀ k, w.row? k = t.row? k := by
    intro k
    rw [hwrows, hrows]
    split
    · rename_i hk
      rw [← hk, hold]
    · rfl
  have hwt : w = t := (hsound.edit hw).ext_row? h ((edit_schema hw).trans hschema) hback
  exact ⟨old, hold, hwt ▸ hw⟩

theorem Reachable.change_undone (h : Reachable s t) :
    (∀ {row u}, t.insert row = .ok u →
      ∃ key, row[t.keyPosition]? = some key ∧ u.erase key = .ok (row, t)) ∧
    (∀ {key row u}, t.erase key = .ok (row, u) → u.insert row = .ok t) ∧
    (∀ {key new u}, t.update key new = .ok u →
      ∃ old, t.row? key = some old ∧ u.update key old = .ok t) :=
  ⟨h.sound.erase_of_insert, h.sound.insert_of_erase, h.sound.update_of_edit⟩

/-- A row of `crew` goes, another one comes, and a third one gets a new mail and a new phone;
each of the three can be taken back. -/
theorem change_undone_crew :
    ∃ t, Reachable crew t ∧
      (∃ u, t.update (.int 1) [.int 1, .text "c", .int 30] = .ok u ∧
        u.update (.int 1) [.int 1, .text "a", .int 10] = .ok t) ∧
      (∃ u, t.insert [.int 3, .text "c", .int 30] = .ok u ∧
        u.erase (.int 3) = .ok ([.int 3, .text "c", .int 30], t)) ∧
      ∃ u, t.erase (.int 2) = .ok ([.int 2, .text "b", .int 20], u) ∧
        u.insert [.int 2, .text "b", .int 20] = .ok t := by
  have hrows : ∃ t, ofRows crew [[.int 1, .text "a", .int 10], [.int 2, .text "b", .int 20]] =
      .ok t := ⟨_, rfl⟩
  obtain ⟨t, ht⟩ := hrows
  have h : Reachable crew t := .ofRows ht
  obtain ⟨hinsert, herase, hupdate⟩ := h.change_undone
  cases ht
  refine ⟨_, h, ⟨_, rfl, ?_⟩, ⟨_, rfl, ?_⟩, _, rfl, @herase (.int 2) _ _ rfl⟩
  · obtain ⟨old, hold, hback⟩ := @hupdate (.int 1) [.int 1, .text "c", .int 30] _ rfl
    cases hold
    exact hback
  · obtain ⟨key, hkey, hback⟩ := @hinsert [.int 3, .text "c", .int 30] _ rfl
    cases hkey
    exact hback

/-- The call that takes a call back. -/
def undo? (t : Table) : Call → Option Call
  | .insert row => row[t.keyPosition]?.map .erase
  | .update key _ => (t.row? key).map (.update key)
  | .edit key _ => (t.row? key).map (.update key)
  | .erase key => (t.row? key).map .insert

theorem Sound.undo?_exists (h : t.Sound) (hu : t.attempt c = .ok u) :
    ∃ d, t.undo? c = some d ∧ u.attempt d = .ok t := by
  cases c with
  | insert row =>
    obtain ⟨key, hkey, herase⟩ := h.erase_of_insert hu
    exact ⟨.erase key, by rw [undo?, hkey]; rfl, attempt_erase_eq_ok_iff.2 ⟨row, herase⟩⟩
  | update key new =>
    obtain ⟨old, hold, hback⟩ := h.update_of_edit hu
    exact ⟨.update key old, by rw [undo?, hold]; rfl, hback⟩
  | edit key f =>
    obtain ⟨old, hold, hback⟩ := h.update_of_edit hu
    exact ⟨.update key old, by rw [undo?, hold]; rfl, hback⟩
  | erase key =>
    obtain ⟨row, herase⟩ := attempt_erase_eq_ok_iff.1 hu
    have hrow : t.row? key = some row := (erase_eq_ok_iff.1 herase).1
    exact ⟨.insert row, by rw [undo?, hrow]; rfl, h.insert_of_erase herase⟩

def undoing : Table → List Call → List Call
  | _, [] => []
  | t, c :: rest =>
    undoing (t.after c) rest ++ if (t.attempt c).isOk then (t.undo? c).toList else []

theorem Sound.run_undone (h : t.Sound) (cs : List Call) :
    (undoing t cs).foldl Table.after (cs.foldl Table.after t) = t := by
  induction cs generalizing t with
  | nil => rfl
  | cons c rest ih =>
    rw [undoing, List.foldl_cons, List.foldl_append, ih (h.after c)]
    cases hu : t.attempt c with
    | error e => exact after_of_error hu
    | ok u =>
      obtain ⟨d, hd, hback⟩ := h.undo?_exists hu
      rw [hd, after_of_ok hu]
      exact after_of_ok hback

end Table
end RelStore
