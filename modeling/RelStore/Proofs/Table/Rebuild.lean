import RelStore.Proofs.Table.Reachable

/-! A table is known by its schema and its rows: made anew from the two, it is the same
table, whatever its past. -/
namespace RelStore
namespace Table
variable {s : Schema} {t u : Table}

theorem answers_unique {ix ix' : Index} {rows : ValueMap Row} {i : Nat}
    (h : ix.Answers rows i) (h' : ix'.Answers rows i) (hc : ix.column = ix'.column) :
    ix = ix' := by
  have he : ix.entries = ix'.entries := by
    apply ValueMap.ext_get?
    intro v
    apply Option.ext
    intro key
    exact (h v key).trans (h' v key).symm
  obtain ⟨column, entries⟩ := ix
  obtain ⟨column', entries'⟩ := ix'
  cases hc
  cases he
  rfl

theorem indexes_ext {rows : ValueMap Row} {l l' : List (Nat × Index)}
    (hp : places l = places l') (h : ∀ e ∈ l, e.2.Answers rows e.1)
    (h' : ∀ e ∈ l', e.2.Answers rows e.1) : l = l' := by
  induction l generalizing l' with
  | nil =>
    cases l' with
    | nil => rfl
    | cons e' rest' => simp [places] at hp
  | cons e rest ih =>
    cases l' with
    | nil => simp [places] at hp
    | cons e' rest' =>
      obtain ⟨i, ix⟩ := e
      obtain ⟨i', ix'⟩ := e'
      simp only [places, List.map_cons, List.cons.injEq, Prod.mk.injEq] at hp
      obtain ⟨⟨rfl, hc⟩, hp⟩ := hp
      have hix : ix = ix' :=
        answers_unique (h _ List.mem_cons_self) (h' _ List.mem_cons_self) hc
      have hrest : rest = rest' :=
        ih hp (fun e he => h e (List.mem_cons_of_mem _ he))
          (fun e he => h' e (List.mem_cons_of_mem _ he))
      rw [hix, hrest]

theorem Sound.ext (h : t.Sound) (h' : u.Sound) (hs : t.schema = u.schema)
    (hr : t.rows = u.rows) : t = u := by
  have hk : t.keyPosition = u.keyPosition := h'.keyPosition_congr h hs
  have hi : t.indexes = u.indexes := by
    have hplaces : places t.indexes = places u.indexes := by
      rw [h.placed, h'.placed, hs]
    refine indexes_ext hplaces h.answers ?_
    rw [hr]
    exact h'.answers
  obtain ⟨schema, keyPosition, rows, indexes⟩ := t
  obtain ⟨schema', keyPosition', rows', indexes'⟩ := u
  cases hs; cases hk; cases hr; cases hi
  rfl

theorem Sound.ext_row? (h : t.Sound) (h' : u.Sound) (hs : t.schema = u.schema)
    (hr : ∀ key, t.row? key = u.row? key) : t = u := h.ext h' hs (ValueMap.ext_get? hr)

theorem insert_schema {row : Row} (h : t.insert row = .ok u) : u.schema = t.schema := by
  obtain ⟨-, key, indexes, -, -, -, -, rfl⟩ := insert_eq_ok_iff.1 h
  rfl

theorem edit_schema {key : Value} {f : Row → Except Error Row} (h : t.edit key f = .ok u) :
    u.schema = t.schema := by
  obtain ⟨old, new, k, indexes, -, -, -, -, -, -, -, rfl⟩ := edit_eq_ok_iff.1 h
  rfl

theorem erase_schema {key : Value} {row : Row} (h : t.erase key = .ok (row, u)) :
    u.schema = t.schema := by
  obtain ⟨-, indexes, -, rfl⟩ := erase_eq_ok_iff.1 h
  rfl

theorem insertAll_schema {rows : List Row} (h : t.insertAll rows = .ok u) :
    u.schema = t.schema := by
  induction rows generalizing t with
  | nil => cases h; rfl
  | cons row rest ih =>
    obtain ⟨t', ht, hr⟩ := bind_eq_ok_iff.1 h
    exact (ih hr).trans (insert_schema ht)

theorem attempt_schema {c : Call} (h : t.attempt c = .ok u) : u.schema = t.schema := by
  cases c with
  | insert row => exact insert_schema h
  | update key row => exact edit_schema h
  | edit key f => exact edit_schema h
  | erase key =>
    unfold attempt at h
    cases he : t.erase key with
    | error e => simp [he, Except.map] at h
    | ok r =>
      simp only [he, Except.map, Except.ok.injEq] at h
      exact h ▸ erase_schema he

theorem after_schema (t : Table) (c : Call) : (t.after c).schema = t.schema := by
  unfold after
  split
  · rename_i u hu
    exact attempt_schema hu
  · rfl

theorem create_schema (h : create s = .ok t) : s.check = .ok () ∧ t.schema = s.relist := by
  obtain ⟨hs, i, -, rfl⟩ := create_eq_ok_iff.1 h
  exact ⟨hs, rfl⟩

theorem Reachable.schema (h : Reachable s t) : s.check = .ok () ∧ t.schema = s.relist := by
  induction h with
  | create h => exact create_schema h
  | ofRows h =>
    obtain ⟨u, hu, hr⟩ := ofRows_eq_ok_iff.1 h
    obtain ⟨hs, hu⟩ := create_schema hu
    exact ⟨hs, (insertAll_schema hr).trans hu⟩
  | @call t _ c ih => exact ⟨ih.1, (t.after_schema c).trans ih.2⟩

/-- A row of the right types goes in if no row has its key or one of its unique values. -/
theorem Sound.insert_exists {key : Value} {row : Row} (h : u.Sound)
    (ht : row.map Value.type = u.schema.columns.map Column.type)
    (hk : row[u.keyPosition]? = some key) (hn : u.row? key = none)
    (hfree : ∀ (i : Nat) (c : Column), u.schema.columns[i]? = some c → c.isIndexed = true →
      ∀ k r v, u.row? k = some r → row[i]? = some v → r[i]? ≠ some v) :
    ∃ u', u.insert row = .ok u' ∧ u'.rows = u.rows.insert key row := by
  have hcell : ∀ e ∈ u.indexes, ∃ v, row[e.1]? = some v ∧ e.2.key? v = none := by
    intro e he
    obtain ⟨v, hv⟩ := h.cell_of_mem he ht
    obtain ⟨c, hc, hi, -⟩ := h.column_of_mem he
    refine ⟨v, hv, ?_⟩
    rw [Option.eq_none_iff_forall_ne_some]
    intro k hvk
    obtain ⟨r, hr, hrv⟩ := (h.answers e he v k).1 hvk
    exact hfree e.1 c hc hi k r v hr hv hrv
  obtain ⟨l, hl⟩ := turn_entering_exists key fun e he => h.cell_of_mem he ht
  refine ⟨{ u with rows := u.rows.insert key row, indexes := l }, ?_, rfl⟩
  exact insert_eq_ok_iff.2 ⟨ht, key, l, hk, hn, fun e he _ => hcell e he, hl, rfl⟩

/-- Entries of a table go into any part of it that has none of them yet. -/
theorem Sound.insertAll_exists {l : List (Value × Row)} (h : t.Sound) (hu : u.Sound)
    (hs : u.schema = t.schema) (hpart : ∀ k r, u.row? k = some r → t.row? k = some r)
    (hl : ∀ e ∈ l, t.row? e.1 = some e.2) (hnew : ∀ e ∈ l, u.row? e.1 = none)
    (hd : l.Pairwise fun e e' => e.1 ≠ e'.1) :
    ∃ w, u.insertAll (l.map (·.2)) = .ok w ∧
      ∀ k r, w.row? k = some r ↔ u.row? k = some r ∨ (k, r) ∈ l := by
  induction l generalizing u with
  | nil => exact ⟨u, rfl, fun k r => by simp⟩
  | cons e rest ih =>
    obtain ⟨key, row⟩ := e
    have hrow : t.row? key = some row := hl _ List.mem_cons_self
    have hnone : u.row? key = none := hnew _ List.mem_cons_self
    have hpos : u.keyPosition = t.keyPosition := by
      have hp := hu.position
      rw [hs, h.position] at hp
      exact (Option.some.inj hp).symm
    have hin : ∃ u', u.insert row = .ok u' ∧ u'.rows = u.rows.insert key row := by
      apply hu.insert_exists (hs ▸ h.typed hrow) (hpos ▸ h.keyed hrow) hnone
      intro i c hc hi k r v hr hv hrv
      -- a shared value would make the two rows one
      have hkk : k = key := h.key_unique (hs ▸ hc) hi (hpart k r hr) hrow hrv hv
      rw [hkk, hnone] at hr
      cases hr
    obtain ⟨u', hu', hrows⟩ := hin
    have hrow' : ∀ k, u'.row? k = if key = k then some row else u.row? k := by
      intro k
      rw [row?, hrows, ValueMap.get?_insert]
      rfl
    obtain ⟨hne, hd⟩ := List.pairwise_cons.1 hd
    have hw : ∃ w, u'.insertAll (rest.map (·.2)) = .ok w ∧
        ∀ k r, w.row? k = some r ↔ u'.row? k = some r ∨ (k, r) ∈ rest := by
      apply ih (hu.insert hu') ((insert_schema hu').trans hs)
      · intro k r hr
        rw [hrow'] at hr
        split at hr
        · rename_i hk
          rw [← hk, hrow, hr]
        · exact hpart k r hr
      · intro e he
        exact hl e (List.mem_cons_of_mem _ he)
      · intro e he
        rw [hrow', if_neg (hne e he)]
        exact hnew e (List.mem_cons_of_mem _ he)
      · exact hd
    obtain ⟨w, hw, hwr⟩ := hw
    refine ⟨w, ?_, ?_⟩
    · rw [List.map_cons, Table.insertAll]
      exact bind_eq_ok_iff.2 ⟨u', hu', hw⟩
    · intro k r
      rw [hwr, hrow', List.mem_cons]
      by_cases hk : key = k
      · subst hk
        simp [hnone, eq_comm]
      · simp [hk, Ne.symm hk]

theorem Sound.ofRows_allRows (h : t.Sound) (hs : t.schema.check = .ok ()) :
    ofRows t.schema t.allRows = .ok t := by
  have hc : ∃ u, create t.schema = .ok u ∧ u.schema = t.schema ∧ u.rows = .empty := by
    refine ⟨_, create_eq_ok_iff.2 ⟨hs, t.keyPosition, h.position, rfl⟩, ?_, rfl⟩
    exact h.listed.relist_eq
  obtain ⟨u, hu, hus, hur⟩ := hc
  have hempty : ∀ k, u.row? k = none := by
    intro k
    rw [row?, hur, ValueMap.get?_empty]
  have hd : t.entries.Pairwise fun e e' => e.1 ≠ e'.1 :=
    t.rows.sorted.imp fun hlt => Value.ne_of_lt hlt
  obtain ⟨w, hw, hwr⟩ := h.insertAll_exists (create_sound hu) hus
    (fun k r hr => by simp [hempty] at hr) (fun e he => row?_eq_some_iff.2 he)
    (fun e _ => hempty e.1) hd
  have hrows : w.rows = t.rows := by
    apply ValueMap.ext_get?
    intro k
    apply Option.ext
    intro r
    have hk := hwr k r
    rw [hempty, ← row?_eq_some_iff] at hk
    simp only [reduceCtorEq, false_or] at hk
    exact hk
  have hwt : w = t :=
    ((create_sound hu).insertAll hw).ext h ((insertAll_schema hw).trans hus) hrows
  rw [ofRows_eq_ok_iff]
  exact ⟨u, hu, hwt ▸ hw⟩

theorem Reachable.ofRows_allRows (h : Reachable s t) (hl : s.Listed) :
    Table.ofRows t.schema t.allRows = .ok t := by
  obtain ⟨hs, ht⟩ := h.schema
  apply h.sound.ofRows_allRows
  rw [ht, hl.relist_eq]
  exact hs

end Table
end RelStore
