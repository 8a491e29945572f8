import Mathlib.Data.List.Perm.Basic
import RelStore.Proofs.Table.RowChange

/-! Tables made of rows: which rows a table can be made of, what it then holds, and why
other rows are refused. -/
namespace RelStore

/-- A value under a new key comes to the others. -/
theorem ValueMap.perm_values_insert {α : Type} {m : ValueMap α} {key : Value} (x : α)
    (h : m.get? key = none) : (m.insert key x).values.Perm (x :: m.values) := by
  have hput : ∀ l : List (Value × α), (∀ e ∈ l, e.1 ≠ key) →
      (put key x l).Perm ((key, x) :: l) := by
    intro l hl
    induction l with
    | nil => exact .refl _
    | cons e rest ih =>
      obtain ⟨hne, hrest⟩ := List.forall_mem_cons.1 hl
      rw [put]
      split
      · exact .refl _
      · rw [if_neg (Ne.symm hne)]
        exact ((ih hrest).cons e).trans (.swap ..)
  refine (hput m.entries fun e he hkey => ?_).map (·.2)
  have hsome : m.get? key = some e.2 := m.get?_eq_some_iff.2 (hkey ▸ he)
  rw [h] at hsome
  cases hsome

def Schema.Apart (s : Schema) (r r' : Row) : Prop :=
  ∀ (i : Nat) (c : Column), s.columns[i]? = some c → c.isIndexed = true → r[i]? ≠ r'[i]?

theorem Schema.Apart.symm {s : Schema} {r r' : Row} (h : s.Apart r r') : s.Apart r' r :=
  fun i c hc hi => (h i c hc hi).symm

namespace Table
variable {s : Schema} {t u w : Table} {key : Value} {row : Row} {rows : List Row} {e : Error}

theorem mem_allRows_iff : row ∈ t.allRows ↔ ∃ key, t.row? key = some row := by
  simp only [allRows, ValueMap.values, List.mem_map, row?_eq_some_iff]
  constructor
  · rintro ⟨⟨key, r⟩, he, rfl⟩
    exact ⟨key, he⟩
  · rintro ⟨key, he⟩
    exact ⟨(key, row), he, rfl⟩

theorem Sound.row?_iff (h : t.Sound) :
    t.row? key = some row ↔ row ∈ t.allRows ∧ row[t.keyPosition]? = some key := by
  rw [mem_allRows_iff]
  constructor
  · intro hr
    exact ⟨⟨key, hr⟩, h.keyed hr⟩
  · rintro ⟨⟨k, hr⟩, hkey⟩
    have hkk : k = key := Option.some.inj ((h.keyed hr).symm.trans hkey)
    exact hkk ▸ hr

theorem Sound.keyColumn (h : t.Sound) :
    ∃ c, t.schema.columns[t.keyPosition]? = some c ∧ c.isIndexed = true := by
  obtain ⟨i, c, hi, hc, hprimary⟩ := h.proper.primaryPosition?
  rw [h.position] at hi
  cases hi
  exact ⟨c, hc, by rw [Column.isIndexed, hprimary, Bool.true_or]⟩

theorem Sound.key_exists (h : t.Sound)
    (ht : row.map Value.type = t.schema.columns.map Column.type) :
    ∃ key, row[t.keyPosition]? = some key := by
  obtain ⟨c, hc, -⟩ := h.keyColumn
  have hlength : row.length = t.schema.columns.length := Schema.length_of_types ht
  have hlt : t.keyPosition < row.length := hlength ▸ (List.getElem?_eq_some_iff.1 hc).1
  exact ⟨row[t.keyPosition], List.getElem?_eq_getElem hlt⟩

theorem Sound.ext_mem (h : t.Sound) (h' : u.Sound) (hs : t.schema = u.schema)
    (hrows : ∀ row, row ∈ t.allRows ↔ row ∈ u.allRows) : t = u := by
  refine h.ext_row? h' hs fun key => Option.ext fun row => ?_
  rw [h.row?_iff, h'.row?_iff, h.keyPosition_congr h' hs.symm, hrows]

theorem Sound.ext_perm (h : t.Sound) (h' : u.Sound) (hs : t.schema = u.schema)
    (hp : t.allRows.Perm u.allRows) : t = u := h.ext_mem h' hs fun _ => hp.mem_iff

/-- A sound table of some name. -/
structure IsSound (t : Table) (name : String) : Prop where
  named : t.name = name
  sound : t.Sound

theorem IsSound.of_schema {name : String} (h : t.IsSound name) (hu : u.Sound)
    (hs : u.schema = t.schema) : u.IsSound name := ⟨(congrArg Schema.name hs).trans h.named, hu⟩

/-- A row goes in if it fits and differs from all others in every primary or unique column. -/
theorem Sound.insert_iff (h : u.Sound) :
    (∃ w, u.insert row = .ok w) ↔ row.map Value.type = u.schema.columns.map Column.type ∧
      ∀ r ∈ u.allRows, u.schema.Apart row r := by
  constructor
  · rintro ⟨w, hw⟩
    obtain ⟨ht, key, indexes, hkey, hnone, hfree, -, -⟩ := insert_eq_ok_iff.1 hw
    refine ⟨ht, fun r hr i c hc hi hcell => ?_⟩
    obtain ⟨k, hk⟩ := mem_allRows_iff.1 hr
    by_cases hp : i = u.keyPosition
    · -- the two rows would have one key
      subst hp
      have hkk : k = key := Option.some.inj ((h.keyed hk).symm.trans (hcell.symm.trans hkey))
      rw [hkk, hnone] at hk
      cases hk
    · obtain ⟨ix, hix, -⟩ := h.index?_exists hc hi
      obtain ⟨v, hv, hnov⟩ := hfree _ (mem_of_index? hix) hp
      have hkv := (h.key?_eq_some_iff hix).2 ⟨r, hk, hcell.symm.trans hv⟩
      rw [hnov] at hkv
      cases hkv
  · rintro ⟨ht, hapart⟩
    obtain ⟨key, hkey⟩ := h.key_exists ht
    obtain ⟨c, hc, hi⟩ := h.keyColumn
    have hnone : u.row? key = none := by
      rw [Option.eq_none_iff_forall_ne_some]
      intro r hr
      exact hapart r (mem_allRows_iff.2 ⟨key, hr⟩) _ c hc hi (hkey.trans (h.keyed hr).symm)
    obtain ⟨w, hw, -⟩ := h.insert_exists ht hkey hnone fun i c hc hi k r v hr hv hrv =>
      hapart r (mem_allRows_iff.2 ⟨k, hr⟩) i c hc hi (hv.trans hrv.symm)
    exact ⟨w, hw⟩

theorem perm_insert (h : u.insert row = .ok w) : w.allRows.Perm (row :: u.allRows) := by
  obtain ⟨-, key, indexes, -, hnone, -, -, rfl⟩ := insert_eq_ok_iff.1 h
  exact ValueMap.perm_values_insert row hnone

theorem errorClass_of_checkInsert {keyPosition : Nat} {l : List (Nat × Index)}
    (hcells : ∀ e ∈ l, ∃ v, row[e.1]? = some v)
    (h : checkInsert row keyPosition l = .error e) : e.errorClass ≠ .fault := by
  induction l with
  | nil => simp [checkInsert] at h
  | cons d rest ih =>
    obtain ⟨i, ix⟩ := d
    obtain ⟨v, hv⟩ := hcells (i, ix) List.mem_cons_self
    have hrest := fun d hd => hcells d (List.mem_cons_of_mem _ hd)
    rw [checkInsert, Row.cell_eq_ok_iff.2 hv, ok_bind] at h
    split at h
    · exact ih hrest h
    · rcases bind_eq_error_iff.1 h with h | ⟨-, -, h⟩
      · obtain ⟨-, rfl⟩ := ensure_eq_error_iff.1 h
        rintro ⟨⟩
      · exact ih hrest h

theorem Sound.errorClass_of_insert (h : t.Sound) (he : t.insert row = .error e) :
    e.errorClass ≠ .fault := by
  rcases bind_eq_error_iff.1 he with he | ⟨⟨⟩, htyped, he⟩
  · exact Schema.errorClass_of_checkRow he
  have htyped := Schema.checkRow_eq_ok_iff.1 htyped
  obtain ⟨key, hkey⟩ := h.key_exists htyped
  rw [Row.cell_eq_ok_iff.2 hkey, ok_bind] at he
  rcases bind_eq_error_iff.1 he with he | ⟨-, -, he⟩
  · obtain ⟨-, rfl⟩ := ensure_eq_error_iff.1 he
    nofun
  rcases bind_eq_error_iff.1 he with he | ⟨-, -, he⟩
  · exact errorClass_of_checkInsert (fun d hd => h.cell_of_mem hd htyped) he
  · obtain ⟨indexes, hindexes⟩ := turn_entering_exists key fun d hd => h.cell_of_mem hd htyped
    rw [enter_eq_turn, hindexes] at he
    cases he

theorem Sound.insertAll_iff (h : u.Sound) :
    (∃ w, u.insertAll rows = .ok w) ↔
      (∀ row ∈ rows, row.map Value.type = u.schema.columns.map Column.type) ∧
      rows.Pairwise u.schema.Apart ∧ ∀ row ∈ rows, ∀ r ∈ u.allRows, u.schema.Apart row r := by
  induction rows generalizing u with
  | nil => simp [Table.insertAll]
  | cons row rest ih =>
    rw [Table.insertAll]
    simp only [bind_eq_ok_iff, List.forall_mem_cons, List.pairwise_cons]
    constructor
    · rintro ⟨w, u', hu', hw⟩
      obtain ⟨ht, hapart⟩ := h.insert_iff.1 ⟨u', hu'⟩
      obtain ⟨htypes, hpairs, hothers⟩ := (ih (h.insert hu')).1 ⟨w, hw⟩
      rw [insert_schema hu'] at htypes hpairs hothers
      have hmem := fun r => (perm_insert hu').mem_iff (a := r)
      refine ⟨⟨ht, htypes⟩, ⟨fun r hr => ?_, hpairs⟩, hapart, fun r hr r' hr' => ?_⟩
      · exact (hothers r hr row ((hmem row).2 List.mem_cons_self)).symm
      · exact hothers r hr r' ((hmem r').2 (List.mem_cons_of_mem _ hr'))
    · rintro ⟨⟨ht, htypes⟩, ⟨hfirst, hpairs⟩, hapart, hothers⟩
      obtain ⟨u', hu'⟩ := h.insert_iff.2 ⟨ht, hapart⟩
      have hrest : ∃ w, u'.insertAll rest = .ok w := by
        refine (ih (h.insert hu')).2 ?_
        rw [insert_schema hu']
        refine ⟨htypes, hpairs, fun r hr r' hr' => ?_⟩
        rcases List.mem_cons.1 ((perm_insert hu').mem_iff.1 hr') with rfl | hr'
        · exact (hfirst r hr).symm
        · exact hothers r hr r' hr'
      obtain ⟨w, hw⟩ := hrest
      exact ⟨w, u', hu', hw⟩

theorem perm_insertAll (h : u.insertAll rows = .ok w) : w.allRows.Perm (rows ++ u.allRows) := by
  induction rows generalizing u with
  | nil =>
    cases h
    exact .refl _
  | cons row rest ih =>
    obtain ⟨u', hu', hw⟩ := bind_eq_ok_iff.1 h
    refine (ih hw).trans ?_
    exact ((perm_insert hu').append_left rest).trans List.perm_middle

theorem Sound.errorClass_of_insertAll (h : u.Sound) (he : u.insertAll rows = .error e) :
    e.errorClass ≠ .fault := by
  induction rows generalizing u with
  | nil => cases he
  | cons row rest ih =>
    rcases bind_eq_error_iff.1 he with he | ⟨u', hu', he⟩
    · exact h.errorClass_of_insert he
    · exact ih (h.insert hu') he

theorem create_exists (h : s.check = .ok ()) :
    ∃ u, create s = .ok u ∧ u.Sound ∧ u.schema = s.relist ∧ u.allRows = [] := by
  obtain ⟨-, hproper, -⟩ := Schema.check_eq_ok_iff.1 h
  obtain ⟨i, c, hi, -, -⟩ := hproper.primaryPosition?
  have hu := create_eq_ok_iff.2 ⟨h, i, hi, rfl⟩
  exact ⟨_, hu, create_sound hu, rfl, rfl⟩

theorem ofRows_exists (hs : s.check = .ok ())
    (htypes : ∀ row ∈ rows, row.map Value.type = s.columns.map Column.type)
    (hpairs : rows.Pairwise s.Apart) : ∃ t, ofRows s rows = .ok t := by
  obtain ⟨u, hu, hsound, huschema, hurows⟩ := create_exists hs
  have hw : ∃ w, u.insertAll rows = .ok w := by
    refine hsound.insertAll_iff.2 ?_
    rw [huschema, hurows]
    exact ⟨htypes, hpairs, fun row _ r hr => by cases hr⟩
  obtain ⟨w, hw⟩ := hw
  exact ⟨w, ofRows_eq_ok_iff.2 ⟨u, hu, hw⟩⟩

/-- A table can be made of rows that fit and differ in every primary or unique column, and
it is the one sound table that has just these rows. -/
theorem ofRows_iff : ofRows s rows = .ok t ↔ s.check = .ok () ∧
    (∀ row ∈ rows, row.map Value.type = s.columns.map Column.type) ∧ rows.Pairwise s.Apart ∧
    t.Sound ∧ t.schema = s.relist ∧ t.allRows.Perm rows := by
  have hmake : ∀ w, ofRows s rows = .ok w → s.check = .ok () ∧
      (∀ row ∈ rows, row.map Value.type = s.columns.map Column.type) ∧ rows.Pairwise s.Apart ∧
      w.Sound ∧ w.schema = s.relist ∧ w.allRows.Perm rows := by
    intro w hw
    obtain ⟨u, hu, hw'⟩ := ofRows_eq_ok_iff.1 hw
    obtain ⟨hs, i, -, rfl⟩ := create_eq_ok_iff.1 hu
    obtain ⟨htypes, hpairs, -⟩ := (create_sound hu).insertAll_iff.1 ⟨w, hw'⟩
    have hperm : w.allRows.Perm (rows ++ []) := perm_insertAll hw'
    rw [List.append_nil] at hperm
    exact ⟨hs, htypes, hpairs, ofRows_sound hw, insertAll_schema hw', hperm⟩
  refine ⟨hmake t, ?_⟩
  rintro ⟨hs, htypes, hpairs, ht, hschema, hperm⟩
  obtain ⟨w, hok⟩ := ofRows_exists hs htypes hpairs
  obtain ⟨-, -, -, hwsound, hwschema, hwperm⟩ := hmake w hok
  have hwt : w = t := hwsound.ext_perm ht (hwschema.trans hschema.symm) (hwperm.trans hperm.symm)
  rw [hok, hwt]

theorem errorClass_of_ofRows (hs : s.check = .ok ()) (h : ofRows s rows = .error e) :
    e.errorClass = .corruption := by
  obtain ⟨u, hu, hsound, -⟩ := create_exists hs
  rw [ofRows, hu, ok_bind] at h
  cases hrows : u.insertAll rows with
  | ok w =>
    rw [hrows] at h
    cases h
  | error e' =>
    rw [hrows] at h
    cases h
    rw [Error.unlessFault, if_neg (hsound.errorClass_of_insertAll hrows)]
    rfl

end Table
end RelStore
