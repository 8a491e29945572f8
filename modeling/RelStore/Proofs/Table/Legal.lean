import RelStore.Proofs.Table.InPlace
import RelStore.Proofs.Table.Made

/-! Which calls succeed and what they change, told by the rows alone. A table decides by its
indexes, and since these answer for the rows, it decides the same. -/
namespace RelStore

def Schema.Clash (s : Schema) (r r' : Row) : Prop :=
  ∃ (i : Nat) (c : Column) (v : Value), s.columns[i]? = some c ∧ c.isUnique = true ∧
    r[i]? = some v ∧ r'[i]? = some v

namespace Table
variable {s : Schema} {t u : Table} {c : Call} {key : Value} {row old new : Row}

/-- A row that is new to the table can be inserted. -/
structure Joins (t : Table) (row : Row) : Prop where
  typed : row.map Value.type = t.schema.columns.map Column.type
  /-- No row has its key. -/
  keyed : ∃ key, row[t.keyPosition]? = some key ∧ t.row? key = none
  /-- No row has one of its unique values. -/
  free : ∀ {k r}, t.row? k = some r → ¬ t.schema.Clash row r

/-- The row under a key can become another one. -/
structure Becomes (t : Table) (key : Value) (old new : Row) : Prop where
  typed : new.map Value.type = t.schema.columns.map Column.type
  keyed : new[t.keyPosition]? = old[t.keyPosition]?
  /-- No other row has one of its unique values; what the old one has is no conflict. -/
  free : ∀ {k r}, t.row? k = some r → k ≠ key → ¬ t.schema.Clash new r

def Legal (t : Table) : Call → Prop
  | .insert row => t.Joins row
  | .update key new => ∃ old, t.row? key = some old ∧ t.Becomes key old new
  | .edit key f => ∃ old new, t.row? key = some old ∧ f old = .ok new ∧ t.Becomes key old new
  | .erase key => ∃ row, t.row? key = some row

/-- The key that a call is about, and the row that it leaves there. -/
inductive Leaves (t : Table) : Call → Value → Option Row → Prop
  | insert {row : Row} {key : Value} (hkey : row[t.keyPosition]? = some key) :
    Leaves t (.insert row) key (some row)
  | update {key : Value} {row : Row} : Leaves t (.update key row) key (some row)
  | edit {key : Value} {f : Row → Except Error Row} {old new : Row} (hold : t.row? key = some old)
    (hnew : f old = .ok new) : Leaves t (.edit key f) key (some new)
  | erase {key : Value} : Leaves t (.erase key) key none

theorem Sound.apart_iff (h : t.Sound) {r : Row}
    (htyped : row.map Value.type = t.schema.columns.map Column.type) :
    t.schema.Apart row r ↔
      row[t.keyPosition]? ≠ r[t.keyPosition]? ∧ ¬ t.schema.Clash row r := by
  constructor
  · intro hapart
    refine ⟨?_, ?_⟩
    · obtain ⟨c, hc, hi⟩ := h.keyColumn
      exact hapart _ c hc hi
    · rintro ⟨i, c, v, hc, hunique, hv, hv'⟩
      have hi : c.isIndexed = true := (h.proper.indexed_iff hc).2 (.inr hunique)
      exact hapart i c hc hi (hv.trans hv'.symm)
  · rintro ⟨hkey, hclash⟩ i c hc hi hcell
    rcases (h.proper.indexed_iff hc).1 hi with hposition | hunique
    · obtain rfl : t.keyPosition = i := Option.some.inj (h.position.symm.trans hposition)
      exact hkey hcell
    · have hlength : row.length = t.schema.columns.length := Schema.length_of_types htyped
      have hlt : i < row.length := hlength ▸ (List.getElem?_eq_some_iff.1 hc).1
      have hv : row[i]? = some row[i] := List.getElem?_eq_getElem hlt
      exact hclash ⟨i, c, row[i], hc, hunique, hv, hcell.symm.trans hv⟩

theorem Sound.insert_iff_joins (h : t.Sound) : (∃ u, t.insert row = .ok u) ↔ t.Joins row := by
  rw [h.insert_iff]
  constructor
  · rintro ⟨htyped, hapart⟩
    obtain ⟨key, hkey⟩ := h.key_exists htyped
    refine ⟨htyped, ⟨key, hkey, ?_⟩, fun {k r} hr => ?_⟩
    · rw [Option.eq_none_iff_forall_ne_some]
      intro r hr
      have hne := ((h.apart_iff htyped).1 (hapart r (mem_allRows_iff.2 ⟨key, hr⟩))).1
      exact hne (hkey.trans (h.keyed hr).symm)
    · exact ((h.apart_iff htyped).1 (hapart r (mem_allRows_iff.2 ⟨k, hr⟩))).2
  · rintro ⟨htyped, ⟨key, hkey, hnone⟩, hfree⟩
    refine ⟨htyped, fun r hr => ?_⟩
    obtain ⟨k, hk⟩ := mem_allRows_iff.1 hr
    refine (h.apart_iff htyped).2 ⟨fun hcell => ?_, hfree hk⟩
    have hkk : k = key := Option.some.inj ((h.keyed hk).symm.trans (hcell.symm.trans hkey))
    rw [hkk, hnone] at hk
    cases hk

theorem Sound.fits_iff_becomes (h : t.Sound) (hold : t.row? key = some old) :
    t.Fits key new ↔ t.Becomes key old new := by
  constructor
  · rintro ⟨htyped, hkeyed, hfree⟩
    refine ⟨htyped, hkeyed.trans (h.keyed hold).symm, ?_⟩
    rintro k r hr hne ⟨i, c, v, hc, hunique, hv, hv'⟩
    have hi : c.isIndexed = true := (h.proper.indexed_iff hc).2 (.inr hunique)
    exact hfree hc hi hr hne (hv'.trans hv.symm)
  · rintro ⟨htyped, hkeyed, hfree⟩
    have hkey : new[t.keyPosition]? = some key := hkeyed.trans (h.keyed hold)
    refine ⟨htyped, hkey, fun {i c} hc hi k r hr hne hcell => ?_⟩
    have hcells : new[t.keyPosition]? ≠ r[t.keyPosition]? := by
      rw [hkey, h.keyed hr]
      exact fun hkk => hne (Option.some.inj hkk).symm
    exact (h.apart_iff htyped).2 ⟨hcells, hfree hr hne⟩ i c hc hi hcell.symm

theorem Sound.edit_iff_becomes (h : t.Sound) {f : Row → Except Error Row} :
    (∃ u, t.edit key f = .ok u) ↔
      ∃ old new, t.row? key = some old ∧ f old = .ok new ∧ t.Becomes key old new := by
  constructor
  · rintro ⟨u, hu⟩
    obtain ⟨old, new, hold, hnew, hfits⟩ := h.fits_of_edit hu
    exact ⟨old, new, hold, hnew, (h.fits_iff_becomes hold).1 hfits⟩
  · rintro ⟨old, new, hold, hnew, hbecomes⟩
    exact h.edit_of_fits hold hnew ((h.fits_iff_becomes hold).2 hbecomes)

theorem Sound.attempt_iff_legal (h : t.Sound) : (∃ u, t.attempt c = .ok u) ↔ t.Legal c := by
  cases c with
  | insert row => exact h.insert_iff_joins
  | update key new =>
    refine h.edit_iff_becomes.trans (exists_congr fun old => ?_)
    constructor
    · rintro ⟨new, hold, ⟨⟩, hbecomes⟩
      exact ⟨hold, hbecomes⟩
    · rintro ⟨hold, hbecomes⟩
      exact ⟨new, hold, rfl, hbecomes⟩
  | edit key f => exact h.edit_iff_becomes
  | erase key =>
    constructor
    · rintro ⟨u, hu⟩
      obtain ⟨row, hrow⟩ := attempt_erase_eq_ok_iff.1 hu
      exact ⟨row, (erase_eq_ok_iff.1 hrow).1⟩
    · rintro ⟨row, hrow⟩
      exact h.erase_exists hrow

theorem legal_withIndexes {l : List (Nat × Index)} : (t.withIndexes l).Legal c ↔ t.Legal c := by
  have hjoins : ∀ {row}, (t.withIndexes l).Joins row ↔ t.Joins row :=
    ⟨fun h => ⟨h.typed, h.keyed, h.free⟩, fun h => ⟨h.typed, h.keyed, h.free⟩⟩
  have hbecomes : ∀ {key old new}, (t.withIndexes l).Becomes key old new ↔ t.Becomes key old new :=
    ⟨fun h => ⟨h.typed, h.keyed, h.free⟩, fun h => ⟨h.typed, h.keyed, h.free⟩⟩
  cases c with
  | insert row => exact hjoins
  | update key new => exact exists_congr fun old => and_congr_right fun _ => hbecomes
  | edit key f =>
    exact exists_congr fun old => exists_congr fun new =>
      and_congr_right fun _ => and_congr_right fun _ => hbecomes
  | erase key => exact Iff.rfl

theorem Formed.attempt_iff_legal (h : Formed s t) :
    (∃ u, t.attempt c = .ok u) ↔ t.Legal c := by
  obtain ⟨t, l, ht, hl, rfl⟩ := h.reachable
  rw [legal_withIndexes, ← ht.sound.attempt_iff_legal]
  constructor
  · rintro ⟨u, hu⟩
    obtain ⟨m, hm, -⟩ := attempt_withIndexes (t := t.withIndexes l) hl.symm hu
    exact ⟨_, hm⟩
  · rintro ⟨u, hu⟩
    obtain ⟨m, hm, -⟩ := attempt_withIndexes hl hu
    exact ⟨_, hm⟩

theorem row?_of_attempt (h : t.attempt c = .ok u) :
    ∃ key left, Leaves t c key left ∧ ∀ k, u.row? k = if key = k then left else t.row? k := by
  cases c with
  | insert row =>
    obtain ⟨key, hkey, -, hrows⟩ := row?_of_insert h
    exact ⟨key, some row, .insert hkey, hrows⟩
  | update key row =>
    obtain ⟨old, new, -, hnew, hrows⟩ := row?_of_edit h
    cases hnew
    exact ⟨key, some row, .update, hrows⟩
  | edit key f =>
    obtain ⟨old, new, hold, hnew, hrows⟩ := row?_of_edit h
    exact ⟨key, some new, .edit hold hnew, hrows⟩
  | erase key => exact ⟨key, none, .erase, row?_of_erase h⟩

/-- A call that is carried out makes the table that it is said to make. It succeeds if and only
if it is legal. Then it changes the row that it is about and no other one, and if it fails, it
changes nothing. -/
theorem Formed.perform_iff_legal (h : Formed s t) (c : Call) :
    (perform c).run.run t = t.outcome c ∧
    (((perform c).run.run t).1 = .ok () ↔ t.Legal c) ∧
    (t.Legal c → ((perform c).run.run t).2.schema = t.schema ∧
      ∃ key left, Leaves t c key left ∧
        ∀ k, ((perform c).run.run t).2.row? k = if key = k then left else t.row? k) ∧
    (∀ e, ((perform c).run.run t).1 = .error e → ((perform c).run.run t).2 = t) := by
  have hrun : (perform c).run.run t = t.outcome c := h.wide.run_perform c
  rw [hrun, ← h.attempt_iff_legal]
  refine ⟨rfl, ?_⟩
  cases hcall : t.attempt c with
  | ok u =>
    rw [outcome_of_ok hcall]
    refine ⟨⟨fun _ => ⟨u, rfl⟩, fun _ => rfl⟩, fun _ => ?_, fun e he => nomatch he⟩
    exact ⟨attempt_schema hcall, row?_of_attempt hcall⟩
  | error e =>
    rw [outcome_of_error hcall]
    have hnot : ¬ ∃ u, Except.error e = Except.ok (α := Table) u := fun ⟨u, hu⟩ => nomatch hu
    exact ⟨⟨nofun, fun hu => absurd hu hnot⟩, fun hu => absurd hu hnot, fun _ _ => rfl⟩

def crew : Schema :=
  .ofColumns "crew" [⟨"id", .int, true, false⟩, ⟨"mail", .text, false, true⟩,
    ⟨"phone", .int, false, true⟩]

/-- With the indexes turned round, a row may keep its phone and change its mail, and a row with
the phone of another one is refused after nothing has changed. -/
theorem perform_iff_legal_crew :
    ∃ t, Formed crew t ∧ t.allRows = [[.int 1, .text "a", .int 10], [.int 2, .text "b", .int 20]] ∧
      t.Legal (.update (.int 1) [.int 1, .text "c", .int 10]) ∧
      ¬ t.Legal (.insert [.int 3, .text "d", .int 20]) ∧
      ((perform (.insert [.int 3, .text "d", .int 20])).run.run t).2 = t := by
  have hrows : ∃ t, ofRows crew [[.int 1, .text "a", .int 10], [.int 2, .text "b", .int 20]] =
      .ok t := ⟨_, rfl⟩
  obtain ⟨t, ht⟩ := hrows
  have h : Formed crew (t.withIndexes t.indexes.reverse) :=
    (Formed.ofRows ht).shuffle (List.reverse_perm _)
  cases ht
  refine ⟨_, h, rfl, ((h.perform_iff_legal _).2.1).1 rfl, fun hlegal => ?_,
    (h.perform_iff_legal _).2.2.2 (.takenValue "phone" (.int 20)) rfl⟩
  exact nomatch ((h.perform_iff_legal _).2.1).2 hlegal

end Table
end RelStore
