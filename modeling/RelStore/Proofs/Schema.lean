import Mathlib.Data.List.Nodup
import RelStore.Schema

/-! What the check of a schema says of its columns, and where the columns of a checked
schema are found. -/
namespace RelStore
namespace Schema

theorem repeated?_eq_none_iff {seen names : List String} :
    repeated? seen names = none ↔ names.Nodup ∧ ∀ n ∈ names, n ∉ seen := by
  induction names generalizing seen with
  | nil => simp [repeated?]
  | cons n rest ih =>
    by_cases h : n ∈ seen
    · simp [repeated?, h]
    · simp only [repeated?, h, if_false, ih, List.nodup_cons, List.mem_cons, not_or]
      constructor
      · rintro ⟨hd, hs⟩
        refine ⟨⟨fun hn => (hs n hn).1 rfl, hd⟩, ?_⟩
        rintro m (rfl | hm)
        · exact h
        · exact (hs m hm).2
      · rintro ⟨⟨hn, hd⟩, hs⟩
        refine ⟨hd, fun m hm => ⟨?_, hs m (.inr hm)⟩⟩
        rintro rfl
        exact hn hm

/-- Columns of different names, exactly one of them the primary key and that one not also
unique. -/
structure Proper (s : Schema) : Prop where
  nodup : s.columnNames.Nodup
  primary : ∃ k, s.columns.filter (·.isPrimary) = [k] ∧ k.isUnique = false

theorem checkNames_eq_ok_iff {s : Schema} {u : Unit} :
    s.checkNames = .ok u ↔ s.columnNames.Nodup := by
  unfold checkNames
  cases h : repeated? [] s.columnNames with
  | none => simpa using (repeated?_eq_none_iff.1 h).1
  | some n =>
    have hn : ¬ repeated? [] s.columnNames = none := by simp [h]
    rw [repeated?_eq_none_iff] at hn
    simpa using hn

theorem checkPrimary_eq_ok_iff {s : Schema} {u : Unit} :
    s.checkPrimary = .ok u ↔
      ∃ k, s.columns.filter (·.isPrimary) = [k] ∧ k.isUnique = false := by
  unfold checkPrimary
  split
  · rename_i h; simp only [h]; simp
  · rename_i k h; simp only [h]; simp
  · rename_i ks h h'
    simp only [reduceCtorEq, false_iff, not_exists, not_and]
    exact fun k hk => absurd hk (h' k)

theorem check_eq_ok_iff {s : Schema} {u : Unit} :
    s.check = .ok u ↔ s.columns ≠ [] ∧ s.Proper ∧ s.checkForeignKeys s.foreignKeys = .ok () := by
  simp only [check, bind_eq_ok_iff, ensure_eq_ok_iff, checkNames_eq_ok_iff,
    checkPrimary_eq_ok_iff]
  constructor
  · rintro ⟨-, hc, -, hn, -, hp, hk⟩
    exact ⟨hc, ⟨hn, hp⟩, hk⟩
  · rintro ⟨hc, ⟨hn, hp⟩, hk⟩
    exact ⟨(), hc, (), hn, (), hp, hk⟩

/-- Only a foreign key can lead the check of a schema beyond the end of a list. -/
theorem check_eq_fault_iff {s : Schema} {e : Error} (he : e.errorClass = .fault) :
    s.check = .error e ↔
      s.columns ≠ [] ∧ s.Proper ∧ s.checkForeignKeys s.foreignKeys = .error e := by
  have hnames : s.checkNames ≠ .error e := by
    rintro hn
    unfold checkNames at hn
    split at hn
    · cases hn
    · cases hn
      cases he
  have hprimary : s.checkPrimary ≠ .error e := by
    rintro hp
    unfold checkPrimary at hp
    split at hp
    · cases hp
      cases he
    · obtain ⟨-, rfl⟩ := ensure_eq_error_iff.1 hp
      cases he
    · cases hp
      cases he
  have hcolumns : ensure (s.columns ≠ []) (.noColumns s.name) ≠ .error e := by
    rintro hc
    obtain ⟨-, rfl⟩ := ensure_eq_error_iff.1 hc
    cases he
  simp only [check, bind_eq_error_iff, ensure_eq_ok_iff, checkNames_eq_ok_iff,
    checkPrimary_eq_ok_iff, hcolumns, hnames, hprimary, false_or]
  constructor
  · rintro ⟨-, hc, -, hn, -, hp, hk⟩
    exact ⟨hc, ⟨hn, hp⟩, hk⟩
  · rintro ⟨hc, ⟨hn, hp⟩, hk⟩
    exact ⟨(), hc, (), hn, (), hp, hk⟩

@[simp] theorem columns_relist (s : Schema) : s.relist.columns = s.columns := rfl

@[simp] theorem name_relist (s : Schema) : s.relist.name = s.name := rfl

@[simp] theorem foreignKeys_relist (s : Schema) : s.relist.foreignKeys = s.foreignKeys := rfl

def Listed (s : Schema) : Prop := s.listed = s.columnNames

theorem listed_relist (s : Schema) : s.relist.Listed := rfl

theorem listed_ofColumns (name : String) (columns : List Column) (keys : List ForeignKey) :
    ((ofColumns name columns).withForeignKeys keys).Listed := rfl

theorem Listed.relist_eq {s : Schema} (h : s.Listed) : s.relist = s := by
  obtain ⟨name, columns, keys, listed⟩ := s
  simp only [Listed, columnNames] at h
  simp [relist, h]

theorem Listed.position? {s : Schema} (h : s.Listed) (name : String) :
    s.position? name = s.columnNames.idxOf? name := by
  rw [Schema.position?, show s.listed = s.columnNames from h]
  split <;> rfl

theorem position?_column {s : Schema} (h : s.Listed) (hn : s.columnNames.Nodup) {i : Nat}
    {c : Column} (hc : s.columns[i]? = some c) : s.position? c.name = some i := by
  have hi : s.columnNames[i]? = some c.name := by simp [columnNames, hc]
  obtain ⟨hlt, hget⟩ := List.getElem?_eq_some_iff.1 hi
  rw [h.position?, List.idxOf?_eq_some_iff]
  refine ⟨hlt, hget, fun j hj he => ?_⟩
  have := (List.Nodup.getElem_inj_iff hn).1 (he.trans hget.symm)
  omega

/-- With its names listed and all of them different, a schema finds every column by its name. -/
theorem position?_eq_some_iff {s : Schema} (h : s.Listed) (hn : s.columnNames.Nodup)
    {name : String} {i : Nat} : s.position? name = some i ↔ s.columnNames[i]? = some name := by
  constructor
  · intro hi
    rw [h.position?] at hi
    obtain ⟨hlt, hname, -⟩ := List.idxOf?_eq_some_iff.1 hi
    exact List.getElem?_eq_some_iff.2 ⟨hlt, hname⟩
  · intro hi
    rw [columnNames, List.getElem?_map] at hi
    obtain ⟨c, hc, rfl⟩ := Option.map_eq_some_iff.1 hi
    exact position?_column h hn hc

theorem columnAt_eq_ok_iff {s : Schema} {i : Nat} {c : Column} :
    s.columnAt i = .ok c ↔ s.columns[i]? = some c := by
  unfold columnAt
  cases s.columns[i]? <;> simp

theorem Proper.primaryPosition? {s : Schema} (h : s.Proper) :
    ∃ i c, s.primaryPosition? = some i ∧ s.columns[i]? = some c ∧ c.isPrimary = true := by
  obtain ⟨k, hk, -⟩ := h.primary
  have hm : k ∈ s.columns ∧ k.isPrimary = true := List.mem_filter.1 (by simp [hk])
  have hp := List.findIdx?_eq_some_of_exists (p := Column.isPrimary) ⟨k, hm⟩
  obtain ⟨hlt, hc, -⟩ := List.findIdx?_eq_some_iff_getElem.1 hp
  exact ⟨_, _, hp, List.getElem?_eq_getElem hlt, hc⟩

/-- The one primary column is where the primary key is. -/
theorem Proper.position_eq {s : Schema} (h : s.Proper) {i : Nat} {c : Column}
    (hc : s.columns[i]? = some c) (hprimary : c.isPrimary = true) :
    s.primaryPosition? = some i := by
  obtain ⟨k, hk, -⟩ := h.primary
  obtain ⟨j, d, hj, hd, hdprimary⟩ := h.primaryPosition?
  have honly : ∀ {e : Column} {n : Nat}, s.columns[n]? = some e → e.isPrimary = true → e = k := by
    intro e n he heprimary
    have hmem : e ∈ s.columns.filter (·.isPrimary) :=
      List.mem_filter.2 ⟨List.mem_of_getElem? he, heprimary⟩
    simpa [hk] using hmem
  have hnodup : s.columns.Nodup := h.nodup.of_map
  have hlt : i < s.columns.length := (List.getElem?_eq_some_iff.1 hc).1
  have hij : i = j := by
    refine (List.getElem?_inj hlt hnodup).1 ?_
    rw [hc, hd, honly hc hprimary, honly hd hdprimary]
  rw [hij, hj]

theorem Proper.indexed_iff {s : Schema} (h : s.Proper) {i : Nat} {c : Column}
    (hc : s.columns[i]? = some c) :
    c.isIndexed = true ↔ s.primaryPosition? = some i ∨ c.isUnique = true := by
  rw [Column.isIndexed, Bool.or_eq_true]
  refine or_congr ⟨h.position_eq hc, fun hi => ?_⟩ Iff.rfl
  obtain ⟨j, d, hj, hd, hprimary⟩ := h.primaryPosition?
  obtain rfl : j = i := Option.some.inj (hj.symm.trans hi)
  obtain rfl : d = c := Option.some.inj (hd.symm.trans hc)
  exact hprimary

theorem checkTypes_eq_ok_iff {cs : List Column} {row : Row} {u : Unit}
    (h : row.length = cs.length) :
    checkTypes cs row = .ok u ↔ row.map Value.type = cs.map Column.type := by
  induction cs generalizing row with
  | nil => simp [List.length_eq_zero_iff.1 h, checkTypes]
  | cons c cs ih =>
    cases row with
    | nil => simp at h
    | cons v vs =>
      have hl : vs.length = cs.length := by simpa using h
      simp [checkTypes, bind_eq_ok_iff, ih hl]

theorem length_of_types {s : Schema} {row : Row}
    (h : row.map Value.type = s.columns.map Column.type) : row.length = s.columns.length := by
  simpa using congrArg List.length h

/-- A row fits when it has a value of the declared type for every column. -/
theorem checkRow_eq_ok_iff {s : Schema} {row : Row} {u : Unit} :
    s.checkRow row = .ok u ↔ row.map Value.type = s.columns.map Column.type := by
  simp only [checkRow, bind_eq_ok_iff, ensure_eq_ok_iff]
  constructor
  · rintro ⟨-, hl, ht⟩
    exact (checkTypes_eq_ok_iff hl).1 ht
  · intro ht
    have hl : row.length = s.columns.length := length_of_types ht
    exact ⟨(), hl, (checkTypes_eq_ok_iff hl).2 ht⟩

def answering (s : Schema) : List String :=
  (if s.isListed then s.listed else s.columnNames).take s.columns.length

theorem position?_eq (s : Schema) (name : String) :
    s.position? name = (if s.isListed then s.listed else s.columnNames).idxOf? name := by
  unfold position?
  split <;> rfl

theorem length_columnNames (s : Schema) : s.columnNames.length = s.columns.length :=
  List.length_map _

theorem answering_of_not_isListed {s : Schema} (h : s.isListed = false) :
    s.answering = s.columnNames := by
  rw [answering, h, ← s.length_columnNames]
  exact List.take_length

theorem Listed.answering {s : Schema} (h : s.Listed) : s.answering = s.columnNames := by
  rw [Schema.answering, show s.listed = s.columnNames from h, ite_self, ← s.length_columnNames]
  exact List.take_length

theorem mem_take_iff {names : List String} {name : String} {i n : Nat}
    (h : names.idxOf? name = some i) : name ∈ names.take n ↔ i < n := by
  obtain ⟨hlt, hname, hfirst⟩ := List.idxOf?_eq_some_iff.1 h
  rw [List.mem_take_iff_getElem]
  constructor
  · rintro ⟨j, hj, hjname⟩
    have hij : i ≤ j := Nat.not_lt.1 fun hji => hfirst j hji hjname
    omega
  · exact fun h => ⟨i, by omega, hname⟩

theorem column?_exists_iff {s : Schema} {name : String} :
    (∃ c, s.column? name = .ok (some c)) ↔ name ∈ s.answering := by
  rw [answering, column?, position?_eq]
  generalize (if s.isListed then s.listed else s.columnNames) = names
  cases hi : names.idxOf? name with
  | none =>
    have hnot : name ∉ names := List.idxOf?_eq_none_iff.1 hi
    simp only [Except.ok.injEq, reduceCtorEq, exists_false, false_iff]
    exact fun hmem => hnot (List.mem_of_mem_take hmem)
  | some i =>
    have hcolumn : (∃ c, some <$> s.columnAt i = .ok (some c)) ↔ ∃ c, s.columns[i]? = some c := by
      simp only [← columnAt_eq_ok_iff]
      cases s.columnAt i <;> simp [Functor.map, Except.map]
    rw [mem_take_iff hi, hcolumn]
    simp [List.getElem?_eq_some_iff]

/-- Foreign keys are accepted if they start from names that answer. -/
theorem checkForeignKeys_eq_ok_iff {s : Schema} {keys : List ForeignKey} :
    s.checkForeignKeys keys = .ok () ↔ ∀ k ∈ keys, k.column ∈ s.answering := by
  induction keys with
  | nil => simp [checkForeignKeys]
  | cons k rest ih =>
    rw [checkForeignKeys, bind_eq_ok_iff, List.forall_mem_cons, ← column?_exists_iff, ← ih]
    constructor
    · rintro ⟨_ | c, hc, h⟩
      · cases h
      · exact ⟨⟨c, hc⟩, h⟩
    · rintro ⟨⟨c, hc⟩, h⟩
      exact ⟨some c, hc, h⟩

theorem Listed.column?_eq {s : Schema} (h : s.Listed) (name : String) :
    ∃ c?, s.column? name = .ok c? ∧ (c?.isSome = true ↔ name ∈ s.columnNames) := by
  unfold column?
  rw [h.position?]
  cases hi : s.columnNames.idxOf? name with
  | none => exact ⟨none, rfl, by simp [List.idxOf?_eq_none_iff.1 hi]⟩
  | some i =>
    obtain ⟨hlt, hname, -⟩ := List.idxOf?_eq_some_iff.1 hi
    have hcolumn : i < s.columns.length := by simpa [columnNames] using hlt
    have hat : s.columnAt i = .ok s.columns[i] :=
      columnAt_eq_ok_iff.2 (List.getElem?_eq_getElem hcolumn)
    refine ⟨some s.columns[i], ?_, ?_⟩
    · simp only [hat]
      rfl
    · simp only [Option.isSome_some, true_iff]
      exact hname ▸ List.getElem_mem hlt

theorem Listed.checkForeignKeys_eq_ok_iff {s : Schema} (h : s.Listed) {keys : List ForeignKey} :
    s.checkForeignKeys keys = .ok () ↔ ∀ k ∈ keys, k.column ∈ s.columnNames := by
  rw [Schema.checkForeignKeys_eq_ok_iff, h.answering]

theorem Listed.errorClass_of_checkForeignKeys {s : Schema} (h : s.Listed)
    {keys : List ForeignKey} {e : Error} (he : s.checkForeignKeys keys = .error e) :
    e.errorClass ≠ .fault := by
  induction keys with
  | nil => cases he
  | cons k rest ih =>
    obtain ⟨c?, hc, -⟩ := h.column?_eq k.column
    rw [checkForeignKeys, hc, ok_bind] at he
    cases c? with
    | none =>
      cases he
      nofun
    | some c => exact ih he

theorem Listed.errorClass_of_check {s : Schema} (h : s.Listed) {e : Error}
    (he : s.check = .error e) : e.errorClass ≠ .fault := by
  intro hfault
  obtain ⟨-, -, hkeys⟩ := (check_eq_fault_iff hfault).1 he
  exact h.errorClass_of_checkForeignKeys hkeys hfault

end Schema
end RelStore
