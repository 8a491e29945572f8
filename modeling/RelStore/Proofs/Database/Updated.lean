import RelStore.Proofs.Database.Spellings
import RelStore.Proofs.Database.Undisturbed
import RelStore.Proofs.Table.Made

/-! What an update leaves of the rows of a table. Its rows take their values one by one, and each
row that has taken a value keeps it, so a row that was refused a value is refused it in the end. -/
namespace RelStore
namespace Database
open Table (Call matching swept accepted)

variable {name : String} {db : Database} {t u : Table} {c : Condition} {s : Schema}
  {assignments : List (String × Value)} {changes : List (Nat × Value)} {key : Value}
  {keys : List Value} {row new : Row}

theorem typed_of_mem (ha : resolveAssignments t assignments = .ok changes) {x : Nat × Value}
    (hx : x ∈ changes) :
    ∃ column, t.schema.columns[x.1]? = some column ∧ x.2.type = column.type := by
  have hassigns := resolveAssignments_eq_ok_iff.1 ha
  clear ha
  induction hassigns with
  | nil => cases hx
  | cons h _ ih =>
    rcases List.mem_cons.1 hx with rfl | hx
    · exact h.typed
    · exact ih hx

theorem types_of_assign (ha : resolveAssignments t assignments = .ok changes)
    (hrow : row.map Value.type = t.schema.columns.map Column.type)
    (hnew : assign changes row = .ok new) :
    new.map Value.type = t.schema.columns.map Column.type := by
  refine List.ext_getElem? fun i => ?_
  rw [← hrow, List.getElem?_map, List.getElem?_map, assign_cell hnew]
  cases hi : assigned changes i with
  | none => rfl
  | some v =>
    obtain ⟨column, hcolumn, htype⟩ := typed_of_mem ha (mem_of_assigned hi)
    have hcell : (row.map Value.type)[i]? = some column.type := by
      rw [hrow, List.getElem?_map, hcolumn]
      rfl
    rw [Option.some_or, ← List.getElem?_map, hcell, Option.map_some, htype]

def Conflicts (t : Table) (changes : List (Nat × Value)) (key : Value) : Prop :=
  (∃ v, assigned changes t.keyPosition = some v ∧ v ≠ key) ∨
    ∃ i v column k r, assigned changes i = some v ∧ t.schema.columns[i]? = some column ∧
      column.isIndexed = true ∧ t.row? k = some r ∧ k ≠ key ∧ r[i]? = some v

theorem conflicts_of_refused (ht : t.Sound) (ha : resolveAssignments t assignments = .ok changes)
    (hrow : t.row? key = some row) {e : Error} (he : t.edit key (assign changes) = .error e) :
    Conflicts t changes key := by
  have hlength : row.length = t.schema.columns.length := by
    simpa using congrArg List.length (ht.typed hrow)
  obtain ⟨new, hnew⟩ := assign_exists fun c hc => hlength ▸ resolveAssignments_lt ha c hc
  by_contra hno
  obtain ⟨hkey, hfree⟩ := not_or.1 hno
  have hfits : t.Fits key new := by
    refine ⟨types_of_assign ha (ht.typed hrow) hnew, ?_, fun {i column} hc hi k r hr hk => ?_⟩
    · rw [assign_cell hnew, ht.keyed hrow]
      cases hv : assigned changes t.keyPosition with
      | none => rfl
      | some v =>
        by_contra hne
        exact hkey ⟨v, hv, fun h => hne (congrArg some h)⟩
    · rw [assign_cell hnew]
      cases hv : assigned changes i with
      | none => exact (ht.fits_self hrow).free hc hi hr hk
      | some v =>
        intro hcell
        exact hfree ⟨i, v, column, k, r, hv, hc, hi, hr, hk, hcell⟩
  obtain ⟨u, hu⟩ := ht.edit_of_fits hrow hnew hfits
  cases hu.symm.trans he

theorem refused_swept (ht : t.Sound) (ha : resolveAssignments t assignments = .ok changes)
    (hnodup : keys.Nodup) (hkey : key ∈ keys) (hnot : key ∉ accepted (editing changes) t keys)
    (hrow : t.row? key = some row) :
    ∃ e, (swept (editing changes) t keys).edit key (assign changes) = .error e := by
  have hc := rowChange_editing ha
  obtain ⟨v, hv, -, hturn, hend, haccepted⟩ := hc.turn ht hnodup hkey
  cases he : (swept (editing changes) t keys).edit key (assign changes) with
  | error e => exact ⟨e, rfl⟩
  | ok w =>
    -- the edit would change nothing, and so it would have changed nothing at its turn
    have hsound : (swept (editing changes) t keys).Sound := ht.swept
    have hself := hc.settled ht rfl hkey
    have hstill := (hc.row?_of_not_mem_accepted ht hnodup hnot).trans hrow
    obtain ⟨old, new, hold, hnew, hfits⟩ := hsound.fits_of_edit he
    obtain rfl : row = old := Option.some.inj (hstill.symm.trans hold)
    obtain rfl := assigned_of_self hsound hself hold hnew hfits
    have hthen := hturn.trans hrow
    obtain ⟨w', hw'⟩ := hv.edit_of_fits hthen hnew (hv.fits_self hthen)
    exact absurd (haccepted.2 ⟨w', hw'⟩) hnot

/-- What an update of the rows that satisfy a condition has done when it has updated the rows of
some keys. -/
structure Updates (t : Table) (c : Condition) (changes : List (Nat × Value)) (taken : List Value)
    (u : Table) : Prop where
  schema : u.schema = t.schema
  keys : u.entries.map (·.1) = t.entries.map (·.1)
  /-- A row that does not satisfy the condition is as before. -/
  spared : ∀ {key row}, t.row? key = some row → c.holds (.ofSchema t.schema) row = false →
    u.row? key = some row
  nodup : taken.Nodup
  /-- A row that was updated satisfied the condition; a cell of it is what it was assigned last,
  or else what it was. -/
  updated : ∀ {key}, key ∈ taken → ∃ old new, t.row? key = some old ∧
    c.holds (.ofSchema t.schema) old = true ∧ u.row? key = some new ∧
    ∀ i, new[i]? = (assigned changes i).or old[i]?
  /-- Any other row that satisfied the condition is as before, and still cannot be updated. -/
  left : ∀ {key row}, t.row? key = some row → c.holds (.ofSchema t.schema) row = true →
    key ∉ taken → u.row? key = some row ∧ Conflicts u changes key ∧
      ∃ e, u.edit key (assign changes) = .error e

theorem keys_eq (h : ∀ key, (u.row? key).isSome = (t.row? key).isSome) :
    u.entries.map (·.1) = t.entries.map (·.1) := by
  have hmem : ∀ (v : Table) key, key ∈ v.entries.map (·.1) ↔ (v.row? key).isSome = true := by
    intro v key
    simp [← Table.row?_eq_some_iff, Option.isSome_iff_exists]
  have hrising : ∀ v : Table, (v.entries.map (·.1)).Pairwise (· < ·) := fun v =>
    List.pairwise_map.2 v.rows.sorted
  refine List.Pairwise.eq_of_mem_iff (hrising u) (hrising t) fun key => ?_
  rw [hmem, hmem, h]

theorem row?_of_accepted (ht : t.Sound) (ha : resolveAssignments t assignments = .ok changes)
    (hnodup : keys.Nodup) (hkey : key ∈ accepted (editing changes) t keys) :
    ∃ old new, t.row? key = some old ∧
      (swept (editing changes) t keys).row? key = some new ∧
      ∀ i, new[i]? = (assigned changes i).or old[i]? := by
  have hc := rowChange_editing ha
  have hmem : key ∈ keys := (Table.accepted_sublist ..).mem hkey
  obtain ⟨v, -, -, hturn, hend, haccepted⟩ := hc.turn ht hnodup hmem
  obtain ⟨w, hw⟩ := haccepted.1 hkey
  obtain ⟨old, new, hold, hnew, hrows⟩ := Table.row?_of_edit hw
  refine ⟨old, new, hturn.symm.trans hold, ?_, assign_cell hnew⟩
  rw [hend, Table.after_of_ok hw, hrows, if_pos rfl]

theorem updates_swept (ht : t.Sound) (ha : resolveAssignments t assignments = .ok changes) :
    Updates t c changes (accepted (editing changes) t (matching c t))
      (swept (editing changes) t (matching c t)) := by
  let u := swept (editing changes) t (matching c t)
  have hc := rowChange_editing ha
  have hnodup : (matching c t).Nodup := Table.nodup_matching c t
  have hsame : ∀ {key}, key ∉ accepted (editing changes) t (matching c t) →
      u.row? key = t.row? key := fun hnot => hc.row?_of_not_mem_accepted ht hnodup hnot
  refine ⟨Table.schema_swept, keys_eq fun key => ?_, fun {key row} hrow hfalse => ?_,
    hnodup.sublist (Table.accepted_sublist ..), fun {key} hkey => ?_,
    fun {key row} hrow htrue hnot => ?_⟩
  · by_cases hkey : key ∈ accepted (editing changes) t (matching c t)
    · obtain ⟨old, new, hold, hnew, -⟩ := row?_of_accepted ht ha hnodup hkey
      rw [hold, hnew]
      rfl
    · rw [hsame hkey]
  · rw [← hrow]
    refine hsame fun hkey => ?_
    obtain ⟨row', hrow', htrue⟩ := Table.mem_matching.1 ((Table.accepted_sublist ..).mem hkey)
    obtain rfl : row = row' := Option.some.inj (hrow.symm.trans hrow')
    cases hfalse.symm.trans htrue
  · obtain ⟨row, hrow, htrue⟩ := Table.mem_matching.1 ((Table.accepted_sublist ..).mem hkey)
    obtain ⟨old, new, hold, hnew, hcells⟩ := row?_of_accepted ht ha hnodup hkey
    obtain rfl : row = old := Option.some.inj (hrow.symm.trans hold)
    exact ⟨row, new, hold, htrue, hnew, hcells⟩
  · have hmem : key ∈ matching c t := Table.mem_matching.2 ⟨row, hrow, htrue⟩
    have hstill : u.row? key = some row := (hsame hnot).trans hrow
    obtain ⟨e, he⟩ := refused_swept ht ha hnodup hmem hnot hrow
    have hau : resolveAssignments u assignments = .ok changes :=
      (resolveAssignments_congr Table.schema_swept _).trans ha
    exact ⟨hstill, conflicts_of_refused ht.swept hau hstill he, e, he⟩

theorem Updates.all (h : Updates t c changes keys u) (hu : u.Sound)
    (hplain : ∀ i v column, assigned changes i = some v → t.schema.columns[i]? = some column →
      column.isIndexed = false)
    (hrow : t.row? key = some row) (htrue : c.holds (.ofSchema t.schema) row = true) :
    key ∈ keys := by
  by_contra hnot
  obtain ⟨-, hconflicts, -⟩ := h.left hrow htrue hnot
  rcases hconflicts with ⟨v, hv, -⟩ | ⟨i, v, column, -, -, hv, hcolumn, hindexed, -⟩
  · obtain ⟨column, hcolumn, hindexed⟩ := hu.keyColumn
    rw [hplain _ v column hv (h.schema ▸ hcolumn)] at hindexed
    cases hindexed
  · rw [hplain i v column hv (h.schema ▸ hcolumn)] at hindexed
    cases hindexed

/-- An update whose condition is not an equation on the primary key. No row comes or goes, the
rows that do not satisfy the condition are as before, and each of the others has its values or
is as before; the former are counted. They are all of them if no primary or unique column is
assigned, and otherwise those that are left still cannot take their values, as this would
change their keys or give them a value that another row has. -/
theorem update_effect (ht : Table.Reachable s t) (hfound : db.found name = .ok t)
    (ha : resolveAssignments t assignments = .ok changes) (hscan : keyEquation? t c = none) :
    let r := (run (.update name assignments c) .never).run.run db
    ∃ u taken, Remembers name u db r.2 ∧ Updates t c changes taken u ∧
      ((∀ i v column, assigned changes i = some v → t.schema.columns[i]? = some column →
          column.isIndexed = false) →
        ∀ key row, t.row? key = some row → c.holds (.ofSchema t.schema) row = true →
          key ∈ taken) ∧
      r.1 = if (db.disk.save (tableFile u.name) (Document.ofTable u).encode).1
        then .ok (.updated taken.length) else .error .io := by
  intro r
  have hsound := ht.sound
  have htargets : targets t c = matching c t := by rw [targets, hscan]
  have hnot : ∀ e, ¬ Refuses t c (editing changes) e := by
    rintro e ⟨key, hkey, -⟩
    cases hscan.symm.trans hkey
  have hcommits := commits_update hsound hfound ha hnot
  rw [htargets] at hcommits
  have hupdates := updates_swept (c := c) hsound ha
  refine ⟨_, _, hcommits.remembers, hupdates, fun hplain key row hrow htrue => ?_,
    hcommits.answer⟩
  exact hupdates.all hsound.swept hplain hrow htrue

theorem update_effect_seats :
    let c : Condition := .or (.equals "k" (.int 1)) (.equals "n" (.int 20))
    let r := (run (.update "a" [("n", .int 7)] c) .never).run.run seats
    r.1 = .ok (.updated 1) ∧ ∃ u key, r.2.loaded.lookup "a" = some u ∧
      Updates seatTable c [(1, .int 7)] [key] u := by
  intro c r
  obtain ⟨s, -, hreachable⟩ := inStep_seats.2.reachable
  have hfound : seats.found "a" = .ok seatTable := found_of_lookup lookup_seats
  have ha : resolveAssignments seatTable [("n", .int 7)] = .ok [(1, .int 7)] := by decide +kernel
  have hone : r.1 = .ok (.updated 1) := by decide +kernel
  obtain ⟨u, taken, hremembers, hupdates, -, hanswer⟩ :=
    update_effect hreachable hfound ha (c := c) rfl
  have hlength : taken.length = 1 := by
    rw [hone] at hanswer
    split at hanswer
    · exact (Outcome.updated.inj (Except.ok.inj hanswer)).symm
    · cases hanswer
  obtain ⟨key, rfl⟩ := List.length_eq_one_iff.1 hlength
  exact ⟨hone, u, key, hremembers.lookup, hupdates⟩

def updatedTable (t : Table) (assignments : List (String × Value)) (c : Condition) : Table :=
  match resolveAssignments t assignments with
  | .ok changes => swept (editing changes) t (targets t c)
  | .error _ => t

theorem remembers_update (ht : t.Sound) (hfound : db.found name = .ok t)
    (assignments : List (String × Value)) (c : Condition) :
    Remembers name (updatedTable t assignments c) db
      ((run (.update name assignments c) .never).run.run db).2 := by
  unfold updatedTable
  cases ha : resolveAssignments t assignments with
  | error e => exact (declines_unresolved hfound ha c).remembers
  | ok changes =>
    by_cases hrefuses : ∃ e, Refuses t c (editing changes) e
    · -- the row of the key is refused, so the table is as before
      obtain ⟨e, hrefuses⟩ := hrefuses
      have hsame : swept (editing changes) t (targets t c) = t := by
        obtain ⟨key, hkey, he, -⟩ := hrefuses
        rw [targets, hkey]
        exact Table.after_of_error he
      dsimp only
      rw [hsame]
      exact (declines_refused hfound ha hrefuses).remembers
    · exact (commits_update ht hfound ha (not_exists.1 hrefuses)).remembers

theorem targets_subset (ht : t.Sound) (hc : Table.RowChange t.schema (editing changes)) :
    targets (swept (editing changes) t (targets t c)) c ⊆ targets t c := by
  let u := swept (editing changes) t (targets t c)
  have hu : u.Sound := ht.swept
  have hschema : u.schema = t.schema := Table.schema_swept
  intro key (hkey : key ∈ targets u c)
  by_contra hnot
  have hrow : u.row? key = t.row? key := hc.row?_swept hnot
  rw [targets, keyEquation?_congr ht hu hschema] at hkey
  rw [targets] at hnot
  cases hk : keyEquation? t c with
  | some k =>
    rw [hk] at hkey hnot
    exact hnot hkey
  | none =>
    rw [hk] at hkey hnot
    refine hnot ?_
    obtain ⟨row, hu, htrue⟩ := Table.mem_matching.1 hkey
    exact Table.mem_matching.2 ⟨row, hrow ▸ hu, hschema ▸ htrue⟩

theorem sound_updatedTable (ht : t.Sound) (assignments : List (String × Value)) (c : Condition) :
    (updatedTable t assignments c).Sound := by
  unfold updatedTable
  split
  · exact ht.swept
  · exact ht

theorem updatedTable_again (ht : t.Sound) (assignments : List (String × Value)) (c : Condition) :
    updatedTable (updatedTable t assignments c) assignments c = updatedTable t assignments c := by
  cases ha : resolveAssignments t assignments with
  | error e =>
    have hsame : updatedTable t assignments c = t := by rw [updatedTable, ha]
    rw [hsame, hsame]
  | ok changes =>
    have hc := rowChange_editing ha
    let u := swept (editing changes) t (targets t c)
    have hchanged : updatedTable t assignments c = u := by rw [updatedTable, ha]
    have hau : resolveAssignments u assignments = .ok changes :=
      (resolveAssignments_congr Table.schema_swept _).trans ha
    calc updatedTable (updatedTable t assignments c) assignments c
        = swept (editing changes) u (targets u c) := by rw [hchanged, updatedTable, hau]
      _ = u := Table.swept_self fun key hkey => hc.settled ht rfl (targets_subset ht hc hkey)
      _ = updatedTable t assignments c := hchanged.symm

/-- An update that is run again leaves the same table, rows and indexes, as the first time:
whether it goes to one key or through the rows, also if the rows it has changed no longer
satisfy its condition, if rows were refused, and if it fails. -/
theorem update_idempotent (ht : Table.Reachable s t) (hfound : db.found name = .ok t)
    (assignments : List (String × Value)) (c : Condition) :
    let once := (run (.update name assignments c) .never).run.run db
    let twice := (run (.update name assignments c) .never).run.run once.2
    ∃ u, once.2.loaded.lookup name = some u ∧ twice.2.loaded.lookup name = some u ∧
      ∀ n, twice.2.loaded.lookup n = once.2.loaded.lookup n := by
  intro once twice
  have hsound := ht.sound
  have honce := remembers_update hsound hfound assignments c
  have htwice := remembers_update (sound_updatedTable hsound assignments c) honce.found
    assignments c
  rw [updatedTable_again hsound] at htwice
  refine ⟨_, honce.lookup, htwice.lookup, fun n => ?_⟩
  rw [htwice.memory]
  split
  · rename_i hn
    rw [hn, honce.lookup]
  · rfl

theorem update_idempotent_seats :
    let update := Statement.update "a" [("n", .int 7)] (.or (.equals "n" (.int 10))
      (.equals "n" (.int 20)))
    let once := (run update .never).run.run seats
    let twice := (run update .never).run.run once.2
    once.1 = .ok (.updated 1) ∧ twice.1 = .ok (.updated 0) ∧
      ∃ u, once.2.loaded.lookup "a" = some u ∧ twice.2.loaded.lookup "a" = some u := by
  intro update once twice
  obtain ⟨s, -, hreachable⟩ := inStep_seats.2.reachable
  obtain ⟨u, honce, htwice, -⟩ := update_idempotent hreachable (found_of_lookup lookup_seats)
    [("n", .int 7)] (.or (.equals "n" (.int 10)) (.equals "n" (.int 20)))
  exact ⟨by decide +kernel, by decide +kernel, u, honce, htwice⟩

end Database
end RelStore
