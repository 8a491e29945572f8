import RelStore.Proofs.Schema
import RelStore.Proofs.Table.Indexes

/-! The invariant of tables: rows of the declared types under their own keys, and one index
for each primary or unique column that answers for it. Every change keeps it. -/
namespace RelStore
namespace Table

structure Sound (t : Table) : Prop where
  proper : t.schema.Proper
  listed : t.schema.Listed
  position : t.schema.primaryPosition? = some t.keyPosition
  typed : ∀ {key row}, t.row? key = some row →
    row.map Value.type = t.schema.columns.map Column.type
  keyed : ∀ {key row}, t.row? key = some row → row[t.keyPosition]? = some key
  placed : places t.indexes = places (emptyIndexes 0 t.schema.columns)
  answers : ∀ e ∈ t.indexes, e.2.Answers t.rows e.1

theorem create_eq_ok_iff {s : Schema} {t : Table} :
    create s = .ok t ↔ s.check = .ok () ∧ ∃ i, s.primaryPosition? = some i ∧
      t = ⟨s.relist, i, .empty, emptyIndexes 0 s.columns⟩ := by
  have hp : s.relist.primaryPosition? = s.primaryPosition? := rfl
  simp only [create, bind_eq_ok_iff, hp, Schema.columns_relist]
  cases h : s.primaryPosition? with
  | none => simp
  | some i =>
    constructor
    · rintro ⟨⟨⟩, hs, h⟩
      cases h
      exact ⟨hs, i, rfl, rfl⟩
    · rintro ⟨hs, j, hj, rfl⟩
      cases hj
      exact ⟨(), hs, rfl⟩

theorem insert_eq_ok_iff {t t' : Table} {row : Row} :
    t.insert row = .ok t' ↔
      row.map Value.type = t.schema.columns.map Column.type ∧
      ∃ key indexes, row[t.keyPosition]? = some key ∧ t.row? key = none ∧
        (∀ e ∈ t.indexes, e.1 ≠ t.keyPosition →
          ∃ v, row[e.1]? = some v ∧ e.2.key? v = none) ∧
        turn (entering row key) t.indexes = .ok indexes ∧
        t' = { t with rows := t.rows.insert key row, indexes } := by
  simp only [insert, bind_eq_ok_iff, Schema.checkRow_eq_ok_iff, Row.cell_eq_ok_iff,
    ensure_eq_ok_iff, checkInsert_eq_ok_iff, enter_eq_turn, ValueMap.contains,
    Option.isSome_eq_false_iff, Option.isNone_iff_eq_none, row?]
  constructor
  · rintro ⟨-, ht, key, hk, -, hn, -, hu, indexes, hi, h⟩
    cases h
    exact ⟨ht, key, indexes, hk, hn, hu, hi, rfl⟩
  · rintro ⟨ht, key, indexes, hk, hn, hu, hi, rfl⟩
    exact ⟨(), ht, key, hk, (), hn, (), hu, indexes, hi, rfl⟩

theorem edit_eq_ok_iff {t t' : Table} {key : Value} {f : Row → Except Error Row} :
    t.edit key f = .ok t' ↔
      ∃ old new k indexes, t.row? key = some old ∧ f old = .ok new ∧
        new.map Value.type = t.schema.columns.map Column.type ∧
        new[t.keyPosition]? = some k ∧ old[t.keyPosition]? = some k ∧
        (∀ e ∈ t.indexes, e.1 ≠ t.keyPosition →
          ∃ v w, new[e.1]? = some v ∧ old[e.1]? = some w ∧
            (v = w ∨ e.2.key? v = none ∨ e.2.key? v = some key)) ∧
        turn (replacing old new key t.keyPosition) t.indexes = .ok indexes ∧
        t' = { t with rows := t.rows.insert key new, indexes } := by
  unfold edit row?
  cases ho : t.rows.get? key with
  | none => simp
  | some old =>
    simp only [bind_eq_ok_iff, Schema.checkRow_eq_ok_iff, Row.cell_eq_ok_iff,
      ensure_eq_ok_iff, checkReplace_eq_ok_iff, reenter_eq_turn]
    constructor
    · rintro ⟨new, hf, -, ht, k, hk, k', hk', -, hkk, -, hu, indexes, hi, h⟩
      cases h
      exact ⟨old, new, k, indexes, rfl, hf, ht, hk, hkk ▸ hk', hu, hi, rfl⟩
    · rintro ⟨old', new, k, indexes, ho', hf, ht, hk, hk', hu, hi, rfl⟩
      cases ho'
      exact ⟨new, hf, (), ht, k, hk, k, hk', (), rfl, (), hu, indexes, hi, rfl⟩

theorem erase_eq_ok_iff {t t' : Table} {key : Value} {row : Row} :
    t.erase key = .ok (row, t') ↔
      t.row? key = some row ∧ ∃ indexes, turn (leaving row) t.indexes = .ok indexes ∧
        t' = { t with rows := t.rows.erase key, indexes } := by
  unfold erase row?
  cases hr : t.rows.get? key with
  | none => simp
  | some row' =>
    simp only [bind_eq_ok_iff, leave_eq_turn]
    constructor
    · rintro ⟨indexes, hi, h⟩
      cases h
      exact ⟨rfl, indexes, hi, rfl⟩
    · rintro ⟨h, indexes, hi, rfl⟩
      cases h
      exact ⟨indexes, hi, rfl⟩

variable {t t' : Table}

theorem Sound.keyPosition_congr (h : t.Sound) (h' : t'.Sound) (hs : t'.schema = t.schema) :
    t'.keyPosition = t.keyPosition := by
  have hposition := h'.position
  rw [hs, h.position] at hposition
  exact (Option.some.inj hposition).symm

theorem Sound.column_of_mem (h : t.Sound) {e : Nat × Index} (he : e ∈ t.indexes) :
    ∃ c, t.schema.columns[e.1]? = some c ∧ c.isIndexed = true ∧ e.2.column = c.name := by
  have hp : (e.1, e.2.column) ∈ places t.indexes := List.mem_map_of_mem he
  rw [h.placed] at hp
  obtain ⟨d, hd, hde⟩ := List.mem_map.1 hp
  obtain ⟨i, c, hc, hi, rfl⟩ := mem_emptyIndexes.1 hd
  simp only [Nat.zero_add, Prod.mk.injEq] at hde
  exact ⟨c, hde.1 ▸ hc, hi, hde.2.symm⟩

theorem Sound.cell_of_mem (h : t.Sound) {e : Nat × Index} (he : e ∈ t.indexes) {row : Row}
    (hr : row.map Value.type = t.schema.columns.map Column.type) : ∃ v, row[e.1]? = some v := by
  obtain ⟨c, hc, -, -⟩ := h.column_of_mem he
  have hl : row.length = t.schema.columns.length := Schema.length_of_types hr
  have hlt : e.1 < row.length := hl ▸ (List.getElem?_eq_some_iff.1 hc).1
  exact ⟨row[e.1], List.getElem?_eq_getElem hlt⟩

/-- The index of a position, if its column has one. -/
theorem Sound.index?_column (h : t.Sound) (i : Nat) :
    (t.index? i).map (·.column) =
      (t.schema.columns[i]?.filter (·.isIndexed)).map (·.name) := by
  rw [index?, ← lookup_places, h.placed, lookup_places]
  have := lookup_emptyIndexes 0 i t.schema.columns
  rw [Nat.zero_add] at this
  rw [this, Option.map_map]
  rfl

theorem mem_of_index? {i : Nat} {ix : Index} (h : t.index? i = some ix) : (i, ix) ∈ t.indexes := by
  obtain ⟨l₁, l₂, hl, -⟩ := List.lookup_eq_some_iff.1 h
  simp [hl]

theorem Sound.key?_eq_some_iff (h : t.Sound) {i : Nat} {ix : Index} (hi : t.index? i = some ix)
    {v key : Value} :
    ix.key? v = some key ↔ ∃ row, t.row? key = some row ∧ row[i]? = some v :=
  h.answers _ (mem_of_index? hi) v key

/-- Rows that are the same are found by the same values. -/
theorem Sound.keyOf?_congr (h : t.Sound) (h' : t'.Sound) (hs : t'.schema = t.schema)
    {key : Value} (hr : t'.row? key = t.row? key) (column : String) (v : Value) :
    t'.keyOf? column v = some key ↔ t.keyOf? column v = some key := by
  simp only [keyOf?, hs]
  cases t.schema.position? column with
  | none => exact Iff.rfl
  | some i =>
    have hcolumn := (h'.index?_column i).trans (hs ▸ (h.index?_column i).symm)
    show (t'.index? i).bind (·.key? v) = some key ↔ (t.index? i).bind (·.key? v) = some key
    cases hi : t.index? i with
    | none =>
      rw [hi] at hcolumn
      rw [Option.map_eq_none_iff.1 hcolumn]
    | some ix =>
      rw [hi] at hcolumn
      obtain ⟨ix', hi', -⟩ := Option.map_eq_some_iff.1 hcolumn
      rw [hi', Option.bind_some, Option.bind_some, h'.key?_eq_some_iff hi',
        h.key?_eq_some_iff hi, hr]

theorem Sound.index?_exists (h : t.Sound) {i : Nat} {c : Column}
    (hc : t.schema.columns[i]? = some c) (hi : c.isIndexed = true) :
    ∃ ix, t.index? i = some ix ∧ ix.column = c.name := by
  have hcol := h.index?_column i
  rw [hc, Option.filter_some, if_pos hi] at hcol
  exact Option.map_eq_some_iff.1 hcol

/-- No two rows share a value that leads to a key by an index. -/
theorem Sound.key_unique (h : t.Sound) {i : Nat} {c : Column}
    (hc : t.schema.columns[i]? = some c) (hi : c.isIndexed = true) {key key' : Value}
    {row row' : Row} {v : Value} (hr : t.row? key = some row) (hr' : t.row? key' = some row')
    (hv : row[i]? = some v) (hv' : row'[i]? = some v) : key = key' := by
  obtain ⟨ix, hix, -⟩ := h.index?_exists hc hi
  have hk := (h.key?_eq_some_iff hix).2 ⟨row, hr, hv⟩
  have hk' := (h.key?_eq_some_iff hix).2 ⟨row', hr', hv'⟩
  exact Option.some.inj (hk.symm.trans hk')

theorem create_sound {s : Schema} (h : create s = .ok t) : t.Sound := by
  obtain ⟨hs, i, hi, rfl⟩ := create_eq_ok_iff.1 h
  obtain ⟨-, hp, -⟩ := Schema.check_eq_ok_iff.1 hs
  refine ⟨⟨hp.nodup, hp.primary⟩, s.listed_relist, hi, ?_, ?_, rfl, ?_⟩
  · intro key row hr
    simp [row?] at hr
  · intro key row hr
    simp [row?] at hr
  · intro e he
    obtain ⟨j, c, -, -, rfl⟩ := mem_emptyIndexes.1 he
    exact Index.answers_empty _ _

theorem Sound.insert {row : Row} (h : t.Sound) (hi : t.insert row = .ok t') : t'.Sound := by
  obtain ⟨ht, key, indexes, hk, hn, hu, hx, rfl⟩ := insert_eq_ok_iff.1 hi
  refine ⟨h.proper, h.listed, h.position, ?_, ?_, ?_, ?_⟩
  · intro k r hr
    simp only [row?, ValueMap.get?_insert] at hr
    split at hr
    · cases hr; exact ht
    · exact h.typed hr
  · intro k r hr
    simp only [row?, ValueMap.get?_insert] at hr
    split at hr
    · rename_i hkk
      cases hr; exact hkk ▸ hk
    · exact h.keyed hr
  · exact (places_turn (fun _ _ _ => entering_column) hx).trans h.placed
  · rintro ⟨i, ix'⟩ he
    obtain ⟨ix, hm, hf⟩ := exists_of_mem_turn hx he
    obtain ⟨v, hv, hf⟩ := bind_eq_ok_iff.1 hf
    have hv := Row.cell_eq_ok_iff.1 hv
    cases hf
    have ha := h.answers _ hm
    refine ha.set hn hv ?_
    by_cases hp : i = t.keyPosition
    · -- under the key itself nothing is recorded, since no row has it
      have hvk : v = key := by rw [hp] at hv; exact Option.some.inj (hv.symm.trans hk)
      rw [Option.eq_none_iff_forall_ne_some]
      intro k' hk'
      obtain ⟨r, hr, hc⟩ := (ha v k').1 hk'
      have hr' : t.row? k' = some r := hr
      have hcell := h.keyed hr'
      simp_all
    · obtain ⟨v', hv', hnone⟩ := hu _ hm hp
      simp_all

theorem Sound.edit {key : Value} {f : Row → Except Error Row} (h : t.Sound)
    (hi : t.edit key f = .ok t') : t'.Sound := by
  obtain ⟨old, new, k, indexes, ho, -, ht, hk, hk', hu, hx, rfl⟩ := edit_eq_ok_iff.1 hi
  have hkey : k = key := Option.some.inj (hk'.symm.trans (h.keyed ho))
  subst hkey
  refine ⟨h.proper, h.listed, h.position, ?_, ?_, ?_, ?_⟩
  · intro j r hr
    simp only [row?, ValueMap.get?_insert] at hr
    split at hr
    · cases hr; exact ht
    · exact h.typed hr
  · intro j r hr
    simp only [row?, ValueMap.get?_insert] at hr
    split at hr
    · rename_i hkk
      cases hr; exact hkk ▸ hk
    · exact h.keyed hr
  · exact (places_turn (fun _ _ _ => replacing_column) hx).trans h.placed
  · rintro ⟨i, ix'⟩ he
    obtain ⟨ix, hm, hf⟩ := exists_of_mem_turn hx he
    have ha := h.answers _ hm
    unfold replacing at hf
    split at hf
    · rename_i hp
      cases hf
      exact ha.keep ho (by rw [hp, hk, hk'])
    · rename_i hp
      obtain ⟨v, w, hv, hw, hfree⟩ := hu _ hm hp
      obtain ⟨v', hv', hf⟩ := bind_eq_ok_iff.1 hf
      obtain ⟨w', hw', hf⟩ := bind_eq_ok_iff.1 hf
      rw [Row.cell_eq_ok_iff, hv] at hv'
      rw [Row.cell_eq_ok_iff, hw] at hw'
      cases hv'; cases hw'
      by_cases hvw : v = w
      · rw [if_pos hvw] at hf
        cases hf
        exact ha.keep ho (by rw [hv, hw, hvw])
      · rw [if_neg hvw] at hf
        cases hf
        exact ha.swap ho hv hw hvw (hfree.resolve_left hvw)

theorem Sound.erase {key : Value} {row : Row} (h : t.Sound)
    (hi : t.erase key = .ok (row, t')) : t'.Sound := by
  obtain ⟨hr, indexes, hx, rfl⟩ := erase_eq_ok_iff.1 hi
  refine ⟨h.proper, h.listed, h.position, ?_, ?_, ?_, ?_⟩
  · intro k r hr
    simp only [row?, ValueMap.get?_erase] at hr
    split at hr
    · cases hr
    · exact h.typed hr
  · intro k r hr
    simp only [row?, ValueMap.get?_erase] at hr
    split at hr
    · cases hr
    · exact h.keyed hr
  · exact (places_turn (fun _ _ _ => leaving_column) hx).trans h.placed
  · rintro ⟨i, ix'⟩ he
    obtain ⟨ix, hm, hf⟩ := exists_of_mem_turn hx he
    obtain ⟨v, hv, hf⟩ := bind_eq_ok_iff.1 hf
    cases hf
    exact (h.answers _ hm).remove hr (Row.cell_eq_ok_iff.1 hv)

theorem Sound.insertAll {rows : List Row} (h : t.Sound) (hi : t.insertAll rows = .ok t') :
    t'.Sound := by
  induction rows generalizing t with
  | nil => cases hi; exact h
  | cons row rest ih =>
    obtain ⟨u, hu, hr⟩ := bind_eq_ok_iff.1 hi
    exact ih (h.insert hu) hr

theorem ofRows_eq_ok_iff {s : Schema} {rows : List Row} :
    ofRows s rows = .ok t ↔ ∃ u, create s = .ok u ∧ u.insertAll rows = .ok t := by
  simp only [ofRows, bind_eq_ok_iff]
  refine exists_congr fun u => and_congr_right fun _ => ?_
  cases u.insertAll rows with
  | error e => simp
  | ok v => simp [pure, Except.pure]

theorem ofRows_sound {s : Schema} {rows : List Row} (h : ofRows s rows = .ok t) : t.Sound := by
  obtain ⟨u, hu, hr⟩ := ofRows_eq_ok_iff.1 h
  exact (create_sound hu).insertAll hr

end Table
end RelStore
