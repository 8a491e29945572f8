import RelStore.Database
import RelStore.Proofs.Table.Legal
import RelStore.Proofs.Table.ReadOut

/-! Tables that have come to the same rows in different ways. What can be read of them, and what
is written of them, is the same to the last byte. -/
namespace RelStore

theorem Schema.eq_of_same {s s' : Schema} (h : s.Listed) (h' : s'.Listed)
    (hsame : s.same s' = true) : s = s' := by
  simp only [same, Bool.and_eq_true, beq_iff_eq] at hsame
  obtain ⟨⟨hname, hcolumns⟩, hkeys⟩ := hsame
  rw [← h.relist_eq, ← h'.relist_eq, relist, relist, hname, hcolumns, hkeys]

def Document.ofEntries (s : Schema) (l : List (Value × Row)) : Document :=
  ⟨s.name, s.columns, l.map fun e => e.2.map Cell.ofValue, s.foreignKeys⟩

theorem Document.ofEntries_entries (t : Table) : ofEntries t.schema t.entries = ofTable t := by
  simp only [ofEntries, ofTable, Table.allRows, ValueMap.values, List.map_map]
  rfl

namespace Table
variable {s s' : Schema} {t u : Table}

/-- Two tables that cannot be told apart, in whatever orders their entries and their indexes
are kept. -/
structure Indistinct (t u : Table) : Prop where
  /-- Both are read out alike. -/
  read : ∀ {l m}, l.Perm t.entries → m.Perm u.entries →
    readOut l = t.entries ∧ readOut m = t.entries
  /-- The keys rise. -/
  rising : t.entries.Pairwise fun e e' => e.1.compare e'.1 = .ok .lt ∧ e.1.Precedes e'.1
  /-- Each row is read once, with its key. -/
  once : t.allRows.Nodup ∧ ∀ {key row}, (key, row) ∈ t.entries ↔
    row ∈ t.allRows ∧ row[t.keyPosition]? = some key
  size : t.size = u.size
  row? : ∀ key, t.row? key = u.row? key
  hasIndex : ∀ column, t.hasIndex column = u.hasIndex column
  keyOf? : ∀ column v, t.keyOf? column v = u.keyOf? column v
  find : ∀ column v, t.find column v = u.find column v
  /-- The files are the same. -/
  written : ∀ {l m}, l.Perm t.entries → m.Perm u.entries →
    (Document.ofEntries t.schema (readOut l)).encode = (Document.ofTable t).encode ∧
    (Document.ofEntries u.schema (readOut m)).encode = (Document.ofTable t).encode
  saved : ∀ db, (Database.save t).run.run db = (Database.save u).run.run db

theorem ofRows_perm {rows rows' : List Row} (h : rows.Perm rows') :
    ofRows s rows = .ok t ↔ ofRows s rows' = .ok t := by
  have hsymm : ∀ {r r' : Row}, s.Apart r r' → s.Apart r' r := fun hr => hr.symm
  rw [ofRows_iff, ofRows_iff, h.pairwise_iff hsymm]
  refine and_congr_right fun _ => and_congr ?_ (and_congr_right fun _ =>
    and_congr_right fun _ => and_congr_right fun _ => ?_)
  · exact forall_congr' fun row => by rw [h.mem_iff]
  · exact ⟨fun hp => hp.trans h, fun hp => hp.trans h.symm⟩

theorem Formed.withIndexes_exists (h : Formed s t) (h' : Formed s' u)
    (hs : t.schema.same u.schema = true) (hrows : ∀ row, row ∈ t.allRows ↔ row ∈ u.allRows) :
    ∃ (w : Table) (l m : List (Nat × Index)), w.Sound ∧ l.Perm w.indexes ∧ m.Perm w.indexes ∧
      t = w.withIndexes l ∧ u = w.withIndexes m := by
  obtain ⟨w, l, hw, hl, rfl⟩ := h.reachable
  obtain ⟨w', m, hw', hm, rfl⟩ := h'.reachable
  have hschema : w.schema = w'.schema := Schema.eq_of_same hw.sound.listed hw'.sound.listed hs
  obtain rfl : w = w' := hw.sound.ext_mem hw'.sound hschema hrows
  exact ⟨w, l, m, hw.sound, hl, hm, rfl, rfl⟩

theorem Sound.indistinct {w : Table} (h : w.Sound) {l m : List (Nat × Index)}
    (hl : l.Perm w.indexes) (hm : m.Perm w.indexes) :
    Indistinct (w.withIndexes l) (w.withIndexes m) := by
  have hindex : ∀ i, (w.withIndexes l).index? i = (w.withIndexes m).index? i :=
    fun i => (h.index?_withIndexes hl i).trans (h.index?_withIndexes hm i).symm
  refine ⟨fun ht hu => ⟨h.readOut_of_perm ht, h.readOut_of_perm hu⟩, h.rising_entries,
    ⟨h.nodup_allRows, fun {key row} => row?_eq_some_iff.symm.trans h.row?_iff⟩, rfl, fun _ => rfl,
    fun _ => rfl, fun column v => ?_, fun column v => ?_, fun ht hu => ⟨?_, ?_⟩, fun _ => rfl⟩
  · unfold keyOf?
    simp only [hindex]
    rfl
  · unfold find
    simp only [hindex]
    rfl
  · rw [h.readOut_of_perm ht]
    exact congrArg Document.encode (Document.ofEntries_entries w)
  · rw [h.readOut_of_perm hu]
    exact congrArg Document.encode (Document.ofEntries_entries w)

/-- Rows in another order make the same table, or none either; and tables of equal schemas that
have the same rows cannot be told apart, whatever calls have formed them. -/
theorem order_and_history_hidden :
    (∀ {s rows rows'}, rows.Perm rows' → ∀ t, ofRows s rows = .ok t ↔ ofRows s rows' = .ok t) ∧
    ∀ {s s' t u}, Formed s t → Formed s' u → t.schema.same u.schema = true →
      (∀ row, row ∈ t.allRows ↔ row ∈ u.allRows) → Indistinct t u := by
  refine ⟨fun h t => ofRows_perm h, fun h h' hs hrows => ?_⟩
  obtain ⟨w, l, m, hw, hl, hm, rfl, rfl⟩ := h.withIndexes_exists h' hs hrows
  exact hw.indistinct hl hm

theorem order_and_history_hidden_crew :
    ∃ t u, Formed crew t ∧ Formed crew u ∧ t.indexes.map (·.1) = [2, 1, 0] ∧
      u.indexes.map (·.1) = [0, 1, 2] ∧ Indistinct t u ∧
      ofRows crew [[.int 2, .text "b", .int 20], [.int 1, .text "a", .int 10]] = .ok u := by
  have hrows : ∃ t, ofRows crew [[.int 1, .text "a", .int 10], [.int 2, .text "b", .int 20]] =
      .ok t := ⟨_, rfl⟩
  obtain ⟨t, ht⟩ := hrows
  have hcreate : ∃ u, create crew = .ok u := ⟨_, rfl⟩
  obtain ⟨u, hu⟩ := hcreate
  have h : Formed crew (t.withIndexes t.indexes.reverse) :=
    (Formed.ofRows ht).shuffle (List.reverse_perm _)
  have h' := ((((((Formed.create hu).call (.insert [.int 2, .text "b", .int 20])).call
    (.insert [.int 3, .text "c", .int 30])).call (.insert [.int 4, .text "b", .int 40])).call
    (.erase (.int 3))).call (.insert [.int 1, .text "c", .int 30])).call
    (.update (.int 1) [.int 1, .text "a", .int 10])
  cases ht
  cases hu
  refine ⟨_, _, h, h', rfl, rfl, order_and_history_hidden.2 h h' (by decide) fun _ => Iff.rfl, ?_⟩
  exact (order_and_history_hidden.1 (.swap ..) _).1 rfl

end Table
end RelStore
