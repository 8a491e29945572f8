import RelStore.Database.Run
import RelStore.Proofs.Heading
import RelStore.Proofs.Table.RowChange

/-! Assignments to the columns of a row. A row that has taken its values keeps them, and a
row that is refused because another one has a value of it is refused ever after, since
whatever happens to the other row leaves it that value. -/
namespace RelStore
namespace Database
variable {changes : List (Nat × Value)} {row new : Row}

/-- What a position is assigned last, if anything. -/
def assigned : List (Nat × Value) → Nat → Option Value
  | [], _ => none
  | (j, v) :: rest, i => (assigned rest i).or (if j = i then some v else none)

theorem assign_cell (h : assign changes row = .ok new) (i : Nat) :
    new[i]? = (assigned changes i).or row[i]? := by
  induction changes generalizing row with
  | nil =>
    cases h
    rfl
  | cons c rest ih =>
    obtain ⟨j, v⟩ := c
    rw [assign] at h
    split at h
    · rename_i hj
      rw [ih h, assigned, Option.or_assoc]
      by_cases hji : j = i
      · rw [if_pos hji, ← hji, List.getElem?_set_self hj]
        rfl
      · rw [if_neg hji, List.getElem?_set_ne hji]
        rfl
    · cases h

theorem assign_again {again : Row} (h : assign changes row = .ok new)
    (h' : assign changes new = .ok again) : again = new := by
  refine List.ext_getElem? fun i => ?_
  rw [assign_cell h', assign_cell h, ← Option.or_assoc, Option.or_self]

theorem assign_shared {old other made : Row} {i : Nat} (h : assign changes old = .ok new)
    (h' : assign changes other = .ok made) (hi : other[i]? = new[i]?) : made[i]? = new[i]? := by
  rw [assign_cell h', hi, assign_cell h, ← Option.or_assoc, Option.or_self]

theorem assign_exists (h : ∀ c ∈ changes, c.1 < row.length) :
    ∃ new, assign changes row = .ok new := by
  induction changes generalizing row with
  | nil => exact ⟨row, rfl⟩
  | cons c rest ih =>
    obtain ⟨j, v⟩ := c
    rw [assign, if_pos (h _ List.mem_cons_self)]
    refine ih fun c hc => ?_
    rw [List.length_set]
    exact h c (List.mem_cons_of_mem _ hc)

theorem fits_of_assigned {t v : Table} {key key' : Value} {old : Row} (ht : t.Sound)
    (hv : t.edit key' (assign changes) = .ok v) (hnew : assign changes old = .ok new)
    (hfits : v.Fits key new) : t.Fits key new := by
  have hschema : v.schema = t.schema := Table.edit_schema hv
  have hposition : v.keyPosition = t.keyPosition := ht.keyPosition_congr (ht.edit hv) hschema
  refine ⟨hschema ▸ hfits.typed, hposition ▸ hfits.keyed, ?_⟩
  intro i c hc hi k r hr hk hcell
  have hcolumn : v.schema.columns[i]? = some c := hschema ▸ hc
  obtain ⟨other, made, hother, hmade, hrows⟩ := Table.row?_of_edit hv
  by_cases hkk : key' = k
  · subst hkk
    obtain rfl : other = r := Option.some.inj (hother.symm.trans hr)
    have hrow : v.row? key' = some made := by rw [hrows, if_pos rfl]
    exact hfits.free hcolumn hi hrow hk (assign_shared hnew hmade hcell)
  · have hrow : v.row? k = some r := by rw [hrows, if_neg hkk, hr]
    exact hfits.free hcolumn hi hrow hk hcell

theorem assigned_of_self {t : Table} {key : Value} {old : Row} (ht : t.Sound)
    (hself : t.after (.edit key (assign changes)) = t) (hold : t.row? key = some old)
    (hnew : assign changes old = .ok new) (hfits : t.Fits key new) : new = old := by
  obtain ⟨u, hu⟩ := ht.edit_of_fits hold hnew hfits
  have hattempt : t.attempt (.edit key (assign changes)) = .ok u := hu
  have hut : u = t := (Table.after_of_ok hattempt).symm.trans hself
  obtain ⟨old', new', hold', hnew', hrows⟩ := Table.row?_of_edit hu
  obtain rfl : old = old' := Option.some.inj (hold.symm.trans hold')
  obtain rfl : new = new' := Except.ok.inj (hnew.symm.trans hnew')
  have hrow := hrows key
  rw [if_pos rfl, hut, hold] at hrow
  exact (Option.some.inj hrow).symm

/-- The same edit of the rows of a table, tried for one row after the other. -/
theorem rowChange_assign {s : Schema} (hw : ∀ c ∈ changes, c.1 < s.columns.length) :
    Table.RowChange s fun key => .edit key (assign changes) := by
  refine ⟨?_, ?_, ?_, ?_⟩
  · intro t u key k hu hk
    obtain ⟨old, new, -, -, hrows⟩ := Table.row?_of_edit hu
    rw [hrows, if_neg fun h => hk h.symm]
  · intro t key e ht hs he
    refine ht.errorClass_of_edit ?_ he
    intro old e hold he
    have hlength : old.length = s.columns.length := by
      have hl := congrArg List.length (ht.typed hold)
      simpa [hs] using hl
    obtain ⟨new, hnew⟩ := assign_exists fun c hc => hlength ▸ hw c hc
    rw [hnew] at he
    cases he
  · intro t key ht _
    cases hu : t.attempt (.edit key (assign changes)) with
    | error e => rw [Table.after_of_error hu, Table.after_of_error hu]
    | ok u =>
      rw [Table.after_of_ok hu]
      cases hv : u.attempt (.edit key (assign changes)) with
      | error e => rw [Table.after_of_error hv]
      | ok v =>
        rw [Table.after_of_ok hv]
        obtain ⟨old, new, -, hnew, hrows⟩ := Table.row?_of_edit hu
        have hrow : u.row? key = some new := by rw [hrows, if_pos rfl]
        obtain ⟨old', again, hold', hagain, -⟩ := Table.row?_of_edit hv
        obtain rfl : new = old' := Option.some.inj (hrow.symm.trans hold')
        obtain rfl := assign_again hnew hagain
        exact (ht.edit hu).edit_self hv hrow hagain
  · intro t key ht _ hself key'
    by_cases hkey : key' = key
    · rw [hkey, hself, hself]
    cases hv : t.attempt (.edit key' (assign changes)) with
    | error e => rw [Table.after_of_error hv, hself]
    | ok v =>
      rw [Table.after_of_ok hv]
      cases hw : v.attempt (.edit key (assign changes)) with
      | error e => rw [Table.after_of_error hw]
      | ok w =>
        rw [Table.after_of_ok hw]
        -- what is accepted now was accepted before, when it did nothing
        have hv' : v.Sound := ht.edit hv
        obtain ⟨old, new, hold, hnew, hfits⟩ := hv'.fits_of_edit hw
        have hold' : t.row? key = some old := by
          obtain ⟨_, _, _, _, hrows⟩ := Table.row?_of_edit hv
          rw [← hold, hrows, if_neg hkey]
        obtain rfl := assigned_of_self ht hself hold' hnew (fits_of_assigned ht hv hnew hfits)
        exact hv'.edit_self hw hold hnew

theorem resolveAssignments_lt {t : Table} {assignments : List (String × Value)}
    (h : resolveAssignments t assignments = .ok changes) :
    ∀ c ∈ changes, c.1 < t.schema.columns.length := by
  induction assignments generalizing changes with
  | nil =>
    cases h
    nofun
  | cons a rest ih =>
    obtain ⟨name, v⟩ := a
    rw [resolveAssignments] at h
    obtain ⟨i, hi, h⟩ := bind_eq_ok_iff.1 h
    obtain ⟨_, _, h⟩ := bind_eq_ok_iff.1 h
    obtain ⟨_, _, h⟩ := bind_eq_ok_iff.1 h
    obtain ⟨others, hothers, h⟩ := bind_eq_ok_iff.1 h
    cases h
    intro c hc
    rcases List.mem_cons.1 hc with rfl | hc
    · have hlt := Heading.resolve?_lt (Heading.resolve_eq_ok_iff.1 hi)
      rwa [Heading.length_ofSchema] at hlt
    · exact ih hothers c hc

theorem resolveAssignments_congr {t u : Table} (h : u.schema = t.schema)
    (assignments : List (String × Value)) :
    resolveAssignments u assignments = resolveAssignments t assignments := by
  induction assignments with
  | nil => rfl
  | cons a rest ih => simp only [resolveAssignments, h, ih]

end Database
end RelStore
