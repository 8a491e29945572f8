import RelStore.Proofs.Table.Matching

/-! Which changes of a series are accepted. Each change is tried on the table as it is when its
turn comes; for the row it concerns nothing has happened before and nothing happens after. -/
namespace RelStore
namespace Table
variable {s : Schema} {call : Value → Call} {t u : Table} {key : Value} {keys : List Value}

/-- The keys for which a change was accepted when it was tried for each in turn. -/
def accepted (call : Value → Call) : Table → List Value → List Value
  | _, [] => []
  | t, key :: rest =>
    if (t.attempt (call key)).isOk then key :: accepted call (t.after (call key)) rest
    else accepted call (t.after (call key)) rest

@[simp] theorem accepted_nil : accepted call t [] = [] := rfl

theorem accepted_cons_of_ok {rest : List Value} (h : t.attempt (call key) = .ok u) :
    accepted call t (key :: rest) = key :: accepted call u rest := by
  rw [accepted, after_of_ok h, h]
  rfl

theorem accepted_cons_of_error {rest : List Value} {e : Error}
    (h : t.attempt (call key) = .error e) :
    accepted call t (key :: rest) = accepted call t rest := by
  rw [accepted, after_of_error h, h]
  rfl

theorem accepted_sublist (call : Value → Call) (t : Table) (keys : List Value) :
    (accepted call t keys).Sublist keys := by
  induction keys generalizing t with
  | nil => exact .refl []
  | cons key rest ih =>
    cases h : t.attempt (call key) with
    | ok u =>
      rw [accepted_cons_of_ok h]
      exact (ih u).cons_cons key
    | error e =>
      rw [accepted_cons_of_error h]
      exact (ih t).cons key

/-- The table on which the change of a row is tried has the row as it was in the beginning, and
in the end the row is as this change leaves it. -/
theorem RowChange.turn (hc : RowChange s call) (ht : t.Sound) (hnodup : keys.Nodup)
    (hk : key ∈ keys) :
    ∃ v : Table, v.Sound ∧ v.schema = t.schema ∧ v.row? key = t.row? key ∧
      (swept call t keys).row? key = (v.after (call key)).row? key ∧
      (key ∈ accepted call t keys ↔ ∃ w, v.attempt (call key) = .ok w) := by
  induction keys generalizing t with
  | nil => cases hk
  | cons k rest ih =>
    obtain ⟨hkrest, hnodup⟩ := List.nodup_cons.1 hnodup
    by_cases hkey : key = k
    · subst hkey
      refine ⟨t, ht, rfl, rfl, hc.row?_swept hkrest, ?_⟩
      cases ha : t.attempt (call key) with
      | ok u => simp [accepted_cons_of_ok ha]
      | error e =>
        have hnot : key ∉ accepted call t rest := fun h => hkrest ((accepted_sublist ..).mem h)
        simpa [accepted_cons_of_error ha] using hnot
    · have hrest : key ∈ rest := (List.mem_cons.1 hk).resolve_left hkey
      obtain ⟨v, hv, hs, hrow, hswept, haccepted⟩ := ih (ht.after (call k)) hnodup hrest
      refine ⟨v, hv, hs.trans (t.after_schema _), hrow.trans (hc.row?_after hkey), hswept, ?_⟩
      rw [← haccepted]
      cases ha : t.attempt (call k) with
      | ok u => simp [accepted_cons_of_ok ha, after_of_ok ha, hkey]
      | error e => rw [accepted_cons_of_error ha, after_of_error ha]

theorem RowChange.row?_of_not_mem_accepted (hc : RowChange s call) (ht : t.Sound)
    (hnodup : keys.Nodup) (hk : key ∉ accepted call t keys) :
    (swept call t keys).row? key = t.row? key := by
  by_cases hkeys : key ∈ keys
  · obtain ⟨v, -, -, hrow, hswept, haccepted⟩ := hc.turn ht hnodup hkeys
    cases ha : v.attempt (call key) with
    | ok w => exact absurd (haccepted.2 ⟨w, ha⟩) hk
    | error e => rw [hswept, after_of_error ha, hrow]
  · exact hc.row?_swept hkeys

theorem Sound.fits_self (h : t.Sound) {row : Row} (hrow : t.row? key = some row) :
    Fits t key row := by
  refine ⟨h.typed hrow, h.keyed hrow, fun {i c} hc hi k r hr hk hcell => ?_⟩
  have hlength : row.length = t.schema.columns.length := Schema.length_of_types (h.typed hrow)
  have hlt : i < row.length := hlength ▸ (List.getElem?_eq_some_iff.1 hc).1
  have hv : row[i]? = some row[i] := List.getElem?_eq_getElem hlt
  exact hk (h.key_unique hc hi hr hrow (hcell.trans hv) hv)

end Table
end RelStore
