import RelStore.Proofs.Table.Accepted
import RelStore.Proofs.Table.Made

/-! Rows that are taken out of a table. They go with their entries in the indexes, and the other
rows stay as they are. -/
namespace RelStore
namespace Table
variable {t u : Table} {c : Condition} {key : Value} {keys : List Value}

theorem Sound.row?_after_erase (h : t.Sound) (key k : Value) :
    (t.after (.erase key)).row? k = if key = k then none else t.row? k := by
  cases hrow : t.row? key with
  | none =>
    rw [after_of_error (attempt_erase_of_none hrow)]
    split
    · rename_i hk
      rw [← hk, hrow]
    · rfl
  | some row =>
    obtain ⟨u, hu⟩ := h.erase_exists hrow
    rw [after_of_ok hu, row?_of_erase hu]

theorem Sound.row?_swept_erase (h : t.Sound) (k : Value) :
    (Table.swept .erase t keys).row? k = if k ∈ keys then none else t.row? k := by
  induction keys generalizing t with
  | nil => rfl
  | cons key rest ih =>
    rw [swept_cons, ih (h.after _), h.row?_after_erase]
    by_cases hk : key = k
    · simp [hk]
    · simp [hk, Ne.symm hk]

/-- All rows that are there are taken out. -/
theorem Sound.accepted_erase (h : t.Sound) (hnodup : keys.Nodup)
    (hrows : ∀ key ∈ keys, ∃ row, t.row? key = some row) : Table.accepted .erase t keys = keys := by
  induction keys generalizing t with
  | nil => rfl
  | cons key rest ih =>
    obtain ⟨hkey, hnodup⟩ := List.nodup_cons.1 hnodup
    obtain ⟨row, hrow⟩ := hrows key List.mem_cons_self
    obtain ⟨u, hu⟩ := h.erase_exists hrow
    have hrest : ∀ k ∈ rest, ∃ row, u.row? k = some row := by
      intro k hk
      have hne : key ≠ k := fun hkk => hkey (hkk ▸ hk)
      rw [row?_of_erase hu, if_neg hne]
      exact hrows k (List.mem_cons_of_mem _ hk)
    rw [accepted_cons_of_ok hu, ih (h.attempt hu) hnodup hrest]

def satisfying (c : Condition) (t : Table) : List Row :=
  t.allRows.filter fun row => c.holds (.ofSchema t.schema) row

def cleared (c : Condition) (t : Table) : Table := swept .erase t (matching c t)

theorem schema_cleared (c : Condition) (t : Table) : (cleared c t).schema = t.schema :=
  schema_swept

theorem Sound.cleared (h : t.Sound) (c : Condition) : (Table.cleared c t).Sound := h.swept

theorem length_matching (c : Condition) (t : Table) :
    (matching c t).length = (satisfying c t).length := by
  rw [matching, satisfying, allRows, ValueMap.values, List.filter_map, List.length_map,
    List.length_map]
  rfl

theorem mem_satisfying {row : Row} : row ∈ satisfying c t ↔
    ∃ key ∈ matching c t, t.row? key = some row := by
  rw [satisfying, List.mem_filter, mem_allRows_iff]
  constructor
  · rintro ⟨⟨key, hrow⟩, hholds⟩
    exact ⟨key, mem_matching.2 ⟨row, hrow, hholds⟩, hrow⟩
  · rintro ⟨key, hkey, hrow⟩
    obtain ⟨row', hrow', hholds⟩ := mem_matching.1 hkey
    obtain rfl : row' = row := Option.some.inj (hrow'.symm.trans hrow)
    exact ⟨⟨key, hrow⟩, hholds⟩

/-- A table without some of its rows: the others are as they were, and no index leads to a row
that is gone or has one of its values. -/
structure Without (t : Table) (rows : List Row) (u : Table) : Prop where
  schema : u.schema = t.schema
  entries : u.entries = t.entries.filter fun e => e.2 ∉ rows
  freed : ∀ {row}, row ∈ rows → ∀ {i : Nat} {c : Column} {v}, t.schema.columns[i]? = some c →
    c.isIndexed = true → row[i]? = some v → u.keyOf? c.name v = none ∧ u.find c.name v = .ok none

theorem Sound.row?_cleared (h : t.Sound) (c : Condition) {key : Value} {row : Row} :
    (Table.cleared c t).row? key = some row ↔
      t.row? key = some row ∧ row ∉ satisfying c t := by
  rw [Table.cleared, h.row?_swept_erase]
  by_cases hkey : key ∈ matching c t
  · simp only [hkey, if_true, reduceCtorEq, false_iff, not_and, not_not]
    exact fun hrow => mem_satisfying.2 ⟨key, hkey, hrow⟩
  · rw [if_neg hkey]
    refine (and_iff_left_of_imp fun hrow hmem => ?_).symm
    obtain ⟨k, hk, hrow'⟩ := mem_satisfying.1 hmem
    have hkk : k = key := Option.some.inj ((h.keyed hrow').symm.trans (h.keyed hrow))
    exact hkey (hkk ▸ hk)

/-- The rows that satisfy a condition are taken out. -/
theorem Sound.without (h : t.Sound) (c : Condition) :
    Without t (satisfying c t) (Table.cleared c t) := by
  have hu : (Table.cleared c t).Sound := h.cleared c
  have hschema : (Table.cleared c t).schema = t.schema := schema_cleared c t
  refine ⟨hschema, ?_, fun {row} hrow {i column v} hcolumn hi hv => ?_⟩
  · refine ValueMap.eq_of_sorted_of_mem (ValueMap.sorted _) (t.rows.sorted.filter _) ?_
    rintro ⟨key, row⟩
    rw [List.mem_filter, decide_eq_true_iff]
    have hrow := @Sound.row?_cleared t h c key row
    rw [row?_eq_some_iff, row?_eq_some_iff] at hrow
    exact hrow
  · obtain ⟨ix, hix, -⟩ := hu.index?_exists (hschema ▸ hcolumn) hi
    have hnone : ix.key? v = none := by
      rw [Option.eq_none_iff_forall_ne_some]
      intro k hk
      -- the row of the entry would have been there before, beside another one with its value
      obtain ⟨r, hr, hrv⟩ := (hu.key?_eq_some_iff hix).1 hk
      obtain ⟨hr, hkept⟩ := (h.row?_cleared c).1 hr
      obtain ⟨key, -, hkey⟩ := mem_satisfying.1 hrow
      obtain rfl : key = k := h.key_unique hcolumn hi hkey hr hv hrv
      obtain rfl : row = r := Option.some.inj (hkey.symm.trans hr)
      exact hkept hrow
    constructor
    · rw [hu.keyOf?_column (hschema ▸ hcolumn) hix, hnone]
    · rw [hu.find_column (hschema ▸ hcolumn) hix, hnone]
      rfl

theorem Sound.matching_cleared (h : t.Sound) (c : Condition) :
    matching c (Table.cleared c t) = [] := by
  refine List.eq_nil_iff_forall_not_mem.2 fun key hkey => ?_
  obtain ⟨row, hrow, hholds⟩ := mem_matching.1 hkey
  rw [schema_cleared] at hholds
  obtain ⟨hrow, hkept⟩ := (h.row?_cleared c).1 hrow
  exact hkept (mem_satisfying.2 ⟨key, mem_matching.2 ⟨row, hrow, hholds⟩, hrow⟩)

end Table
end RelStore
