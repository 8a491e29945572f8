import RelStore.Proofs.Table.Sound

/-! Tables after any run of calls, and what holds of all of them: rows, keys, unique values,
indexes and lookups agree. -/
namespace RelStore
namespace Table

/-- A call that can change a table. -/
inductive Call where
  | insert (row : Row)
  | update (key : Value) (row : Row)
  | edit (key : Value) (f : Row → Except Error Row)
  | erase (key : Value)

def attempt (t : Table) : Call → Except Error Table
  | .insert row => t.insert row
  | .update key row => t.update key row
  | .edit key f => t.edit key f
  | .erase key => (t.erase key).map (·.2)

def after (t : Table) (c : Call) : Table :=
  match t.attempt c with
  | .ok u => u
  | .error _ => t

/-- The tables of a schema: a new one or one made of rows, and those after a call. -/
inductive Reachable (s : Schema) : Table → Prop
  | create {t : Table} (h : create s = .ok t) : Reachable s t
  | ofRows {rows : List Row} {t : Table} (h : ofRows s rows = .ok t) : Reachable s t
  | call {t : Table} (h : Reachable s t) (c : Call) : Reachable s (t.after c)

/-- What a table shows: its rows, each under its key, its indexes, and what they find. -/
structure Consistent (t : Table) : Prop where
  /-- A row has one value of the declared type per column. -/
  typed : ∀ {key row}, t.row? key = some row →
    row.map Value.type = t.schema.columns.map Column.type
  /-- The key is the cell of the primary column. -/
  keyed : t.schema.primaryPosition? = some t.keyPosition ∧
    ∀ {key row}, t.row? key = some row → row[t.keyPosition]? = some key
  /-- Rows under different keys have different values in a primary or unique column. -/
  unique : ∀ {i : Nat} {c : Column}, t.schema.columns[i]? = some c → c.isIndexed = true →
    ∀ {key key' row row' v}, t.row? key = some row → t.row? key' = some row' →
      row[i]? = some v → row'[i]? = some v → key = key'
  /-- A primary or unique column has an index, whose entries are its cells with the keys
  of their rows. -/
  indexed : ∀ {i : Nat} {c : Column}, t.schema.columns[i]? = some c → c.isIndexed = true →
    ∃ ix, t.index? i = some ix ∧ ix.column = c.name ∧
      ix.entries.entries.Perm (t.entries.filterMap fun e => e.2[i]?.map (·, e.1))
  /-- No other column has one. -/
  unindexed : ∀ {i ix}, t.index? i = some ix →
    ∃ c : Column, t.schema.columns[i]? = some c ∧ c.isIndexed = true
  /-- By an index the one row with a value is found, if there is one, and its key. -/
  found : ∀ {i : Nat} {c : Column}, t.schema.columns[i]? = some c → c.isIndexed = true → ∀ v,
    ∃ row? : Option Row, t.allRows.filter (fun row => row[i]? = some v) = row?.toList ∧
      t.find c.name v = .ok row? ∧ t.keyOf? c.name v = row?.bind (·[t.keyPosition]?)
  /-- No index leads to a row that is missing. -/
  present : ∀ {i ix v key}, t.index? i = some ix → ix.key? v = some key →
    (t.row? key).isSome = true

variable {s : Schema} {t : Table}

theorem Sound.attempt {u : Table} {c : Call} (h : t.Sound) (hc : t.attempt c = .ok u) :
    u.Sound := by
  cases c with
  | insert row => exact h.insert hc
  | update key row => exact h.edit hc
  | edit key f => exact h.edit hc
  | erase key =>
    unfold Table.attempt at hc
    cases he : t.erase key with
    | error e => simp [he, Except.map] at hc
    | ok r =>
      simp only [he, Except.map, Except.ok.injEq] at hc
      exact hc ▸ h.erase he

theorem Sound.after (h : t.Sound) (c : Call) : (t.after c).Sound := by
  unfold Table.after
  split
  · rename_i u hu
    exact h.attempt hu
  · exact h

theorem Reachable.sound (h : Reachable s t) : t.Sound := by
  induction h with
  | create h => exact create_sound h
  | ofRows h => exact ofRows_sound h
  | call _ c ih => exact ih.after c

theorem row?_eq_some_iff {key : Value} {row : Row} :
    t.row? key = some row ↔ (key, row) ∈ t.entries := t.rows.get?_eq_some_iff

theorem Sound.perm_index (h : t.Sound) {i : Nat} {ix : Index} (hi : t.index? i = some ix) :
    ix.entries.entries.Perm (t.entries.filterMap fun e => e.2[i]?.map (·, e.1)) := by
  have hrows : (t.entries.filterMap fun e => e.2[i]?.map (·, e.1)).Nodup := by
    refine List.Pairwise.filterMap _ ?_ t.rows.sorted
    intro e e' hlt a ha b hb hab
    obtain ⟨v, -, rfl⟩ := Option.map_eq_some_iff.1 ha
    obtain ⟨w, -, rfl⟩ := Option.map_eq_some_iff.1 hb
    simp only [Prod.mk.injEq] at hab
    exact Value.lt_irrefl _ (hab.2 ▸ hlt)
  refine (List.perm_ext_iff_of_nodup ix.entries.nodup_entries hrows).2 fun ⟨v, key⟩ => ?_
  rw [← ValueMap.get?_eq_some_iff, show ix.entries.get? v = ix.key? v from rfl,
    h.key?_eq_some_iff hi]
  simp [row?_eq_some_iff]

/-- The rows with a value in an indexed column are none, or one whose key the index has. -/
theorem Sound.filter_rows (h : t.Sound) {i : Nat} {ix : Index} (hi : t.index? i = some ix)
    (v : Value) :
    t.allRows.filter (fun row => row[i]? = some v) = ((ix.key? v).bind t.row?).toList := by
  have hmap : t.allRows.filter (fun row => row[i]? = some v) =
      (t.entries.filter fun e => e.2[i]? = some v).map (·.2) := by
    simp only [allRows, ValueMap.values, List.filter_map]
    rfl
  rw [hmap]
  cases hk : ix.key? v with
  | none =>
    have hnone : t.entries.filter (fun e => e.2[i]? = some v) = [] := by
      refine List.filter_eq_nil_iff.2 fun e he hv => ?_
      have := (h.key?_eq_some_iff hi).2 ⟨e.2, row?_eq_some_iff.2 he, by simpa using hv⟩
      simp [hk] at this
    simp [hnone]
  | some key =>
    obtain ⟨row, hr, hv⟩ := (h.key?_eq_some_iff hi).1 hk
    have hone : (t.entries.filter fun e => e.2[i]? = some v).Perm [(key, row)] := by
      refine (List.perm_ext_iff_of_nodup (t.rows.nodup_entries.filter _) (by simp)).2 ?_
      rintro ⟨k, r⟩
      simp only [List.mem_filter, decide_eq_true_eq, List.mem_singleton, Prod.mk.injEq]
      constructor
      · rintro ⟨hm, hvr⟩
        have hr' := row?_eq_some_iff.2 hm
        have hkk : ix.key? v = some k := (h.key?_eq_some_iff hi).2 ⟨r, hr', hvr⟩
        rw [hk] at hkk
        cases hkk
        exact ⟨rfl, Option.some.inj (hr'.symm.trans hr)⟩
      · rintro ⟨rfl, rfl⟩
        exact ⟨row?_eq_some_iff.1 hr, hv⟩
    simp [List.perm_singleton.1 hone, hr]

theorem Sound.find_column (h : t.Sound) {i : Nat} {c : Column} {ix : Index}
    (hc : t.schema.columns[i]? = some c) (hi : t.index? i = some ix) (v : Value) :
    t.find c.name v = .ok ((ix.key? v).bind t.row?) := by
  simp only [find, Schema.position?_column h.listed h.proper.nodup hc, hi]
  rfl

theorem Sound.keyOf?_column (h : t.Sound) {i : Nat} {c : Column} {ix : Index}
    (hc : t.schema.columns[i]? = some c) (hi : t.index? i = some ix) (v : Value) :
    t.keyOf? c.name v = ix.key? v := by
  simp [keyOf?, Schema.position?_column h.listed h.proper.nodup hc, hi]

/-- Rows, keys, indexes and lookups of every table that calls can make agree. -/
theorem reachable_consistent (hr : Reachable s t) : t.Consistent := by
  have h := hr.sound
  refine ⟨h.typed, ⟨h.position, h.keyed⟩, h.key_unique, ?_, ?_, ?_, ?_⟩
  · intro i c hc hi
    obtain ⟨ix, hix, hcol⟩ := h.index?_exists hc hi
    exact ⟨ix, hix, hcol, h.perm_index hix⟩
  · intro i ix hix
    obtain ⟨c, hc, hi, -⟩ := h.column_of_mem (mem_of_index? hix)
    exact ⟨c, hc, hi⟩
  · intro i c hc hi v
    obtain ⟨ix, hix, -⟩ := h.index?_exists hc hi
    refine ⟨(ix.key? v).bind t.row?, h.filter_rows hix v, h.find_column hc hix v, ?_⟩
    rw [h.keyOf?_column hc hix]
    cases hk : ix.key? v with
    | none => rfl
    | some key =>
      obtain ⟨row, hrow, -⟩ := (h.key?_eq_some_iff hix).1 hk
      simp [hrow, h.keyed hrow]
  · intro i ix v key hix hk
    obtain ⟨row, hrow, -⟩ := (h.key?_eq_some_iff hix).1 hk
    simp [hrow]

def members : Schema :=
  .ofColumns "members" [⟨"id", .int, true, false⟩, ⟨"mail", .text, false, true⟩]

def membersAfter (t : Table) : Table :=
  (((t.after (.insert [.int 1, .text "a"])).after (.insert [.int 2, .text "b"])).after
    (.update (.int 1) [.int 1, .text "c"])).after (.update (.int 2) [.int 2, .text "c"])

theorem reachable_consistent_members :
    ∃ t, create members = .ok t ∧ Reachable members (membersAfter t) ∧
      (membersAfter t).Consistent ∧
      (membersAfter t).allRows = [[.int 1, .text "c"], [.int 2, .text "b"]] := by
  have h : create members = .ok ⟨members, 0, .empty, emptyIndexes 0 members.columns⟩ := by rfl
  have hr := ((((Reachable.create h).call (.insert [.int 1, .text "a"])).call
    (.insert [.int 2, .text "b"])).call (.update (.int 1) [.int 1, .text "c"])).call
    (.update (.int 2) [.int 2, .text "c"])
  exact ⟨_, h, hr, reachable_consistent hr, by rfl⟩

end Table
end RelStore
