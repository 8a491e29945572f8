import Mathlib.Data.List.DropRight
import Mathlib.Data.List.Perm.Subperm
import RelStore.Proofs.Schema

/-! Schemas whose columns are edited. Lookups go by the names that were listed last as long as
these are as many different ones as there are columns, whatever was edited since. They are right
for all names exactly if the columns have different names and these come first in the list. -/
namespace RelStore

namespace Text
variable {names part : List String}

theorem nodup_eraseDups (names : List String) : names.eraseDups.Nodup := by
  cases names with
  | nil => exact .nil
  | cons n rest =>
    rw [List.eraseDups_cons, List.nodup_cons]
    refine ⟨?_, nodup_eraseDups _⟩
    rw [List.mem_eraseDups]
    simp
termination_by names.length
decreasing_by exact Nat.lt_succ_of_le (List.length_filter_le _ _)

theorem length_eraseDups_le (names : List String) : names.eraseDups.length ≤ names.length :=
  ((nodup_eraseDups names).subperm fun _ => List.mem_eraseDups.1).length_le

theorem nodup_iff_subset (hlength : names.eraseDups.length = part.length) (h : part ⊆ names) :
    part.Nodup ↔ names ⊆ part := by
  constructor
  · intro hnodup n hn
    have hsub : part ⊆ names.eraseDups := fun m hm => List.mem_eraseDups.2 (h hm)
    have hperm := (hnodup.subperm hsub).perm_of_length_le (Nat.le_of_eq hlength)
    exact hperm.mem_iff.2 (List.mem_eraseDups.2 hn)
  · intro hall
    have hsub : names.eraseDups ⊆ part := fun m hm => hall (List.mem_eraseDups.1 hm)
    have hle : part.length ≤ names.eraseDups.length := Nat.le_of_eq hlength.symm
    have hperm := ((nodup_eraseDups names).subperm hsub).perm_of_length_le hle
    exact hperm.nodup_iff.1 (nodup_eraseDups names)

theorem idxOf?_eq_iff (hlength : names.eraseDups.length = part.length) :
    (∀ n, names.idxOf? n = part.idxOf? n) ↔ part.Nodup ∧ part <+: names := by
  constructor
  · intro h
    have hmem : ∀ n, n ∈ names ↔ n ∈ part := fun n => by
      rw [← not_iff_not, ← List.idxOf?_eq_none_iff, ← List.idxOf?_eq_none_iff, h n]
    have hnodup : part.Nodup :=
      (nodup_iff_subset hlength fun n => (hmem n).2).2 fun n => (hmem n).1
    refine ⟨hnodup, List.prefix_iff_getElem?.2 fun i hi => ?_⟩
    have hfound : part.idxOf? part[i] = some i := by
      refine List.idxOf?_eq_some_iff.2 ⟨hi, rfl, fun j hj he => ?_⟩
      have hij := hnodup.getElem_inj_iff.1 he
      omega
    obtain ⟨hlt, hname, -⟩ := List.idxOf?_eq_some_iff.1 ((h _).trans hfound)
    rw [List.getElem?_eq_getElem hlt, hname]
  · rintro ⟨hnodup, hpart⟩ n
    have hall : names ⊆ part := (nodup_iff_subset hlength hpart.subset).1 hnodup
    obtain ⟨rest, rfl⟩ := hpart
    simp only [List.idxOf?, List.findIdx?_append]
    cases hn : part.findIdx? (· == n) with
    | some i => rfl
    | none =>
      -- a name that comes after them would be one of them
      have hrest : rest.findIdx? (· == n) = none := by
        rw [List.findIdx?_eq_none_iff] at hn ⊢
        intro m hm
        exact hn m (hall (List.mem_append_right part hm))
      rw [hrest]
      rfl

end Text

namespace Schema
variable {s t u : Schema} {e : Edit} {edits : List Edit}

/-- A schema after some changes. -/
def editAll (s : Schema) : List Edit → Except Error Schema
  | [] => .ok s
  | e :: rest => do
    let t ← s.edit e
    t.editAll rest

theorem editAll_append (s : Schema) (before after : List Edit) :
    s.editAll (before ++ after) = s.editAll before >>= fun t => t.editAll after := by
  induction before generalizing s with
  | nil => rfl
  | cons e before ih =>
    rw [List.cons_append, editAll, editAll]
    cases s.edit e with
    | error e => rfl
    | ok t => exact ih t

theorem edit_eq_ok (h : s.edit e = .ok t) : t.foreignKeys = s.foreignKeys ∧
    (e = .relist ∧ t = s.relist ∨ e ≠ .relist ∧ t.listed = s.listed) := by
  cases e with
  | push c =>
    cases h
    exact ⟨rfl, .inr ⟨nofun, rfl⟩⟩
  | rename i name =>
    obtain ⟨c, -, h⟩ := bind_eq_ok_iff.1 h
    cases h
    exact ⟨rfl, .inr ⟨nofun, rfl⟩⟩
  | remove i =>
    obtain ⟨c, -, h⟩ := bind_eq_ok_iff.1 h
    cases h
    exact ⟨rfl, .inr ⟨nofun, rfl⟩⟩
  | relist =>
    cases h
    exact ⟨rfl, .inl ⟨rfl, rfl⟩⟩

theorem foreignKeys_editAll (h : s.editAll edits = .ok t) : t.foreignKeys = s.foreignKeys := by
  induction edits generalizing s with
  | nil =>
    cases h
    rfl
  | cons e rest ih =>
    obtain ⟨u, hu, h⟩ := bind_eq_ok_iff.1 h
    exact (ih h).trans (edit_eq_ok hu).1

/-- The changes up to the last one that lists the columns, if there is one. -/
def upToListing (edits : List Edit) : List Edit := edits.rdropWhile (· ≠ .relist)

def sinceListing (edits : List Edit) : List Edit := edits.rtakeWhile (· ≠ .relist)

theorem listing_concat (edits : List Edit) :
    upToListing (edits ++ [.relist]) = edits ++ [.relist] ∧
      sinceListing (edits ++ [.relist]) = [] :=
  ⟨List.rdropWhile_concat_neg _ _ _ (by decide), List.rtakeWhile_concat_neg _ _ _ (by decide)⟩

theorem listing_concat_of_ne (he : e ≠ .relist) (edits : List Edit) :
    upToListing (edits ++ [e]) = upToListing edits ∧
      sinceListing (edits ++ [e]) = sinceListing edits ++ [e] :=
  ⟨List.rdropWhile_concat_pos _ _ _ (decide_eq_true he),
    List.rtakeWhile_concat_pos _ _ _ (decide_eq_true he)⟩

theorem Listed.editAll (hs : s.Listed) (h : s.editAll edits = .ok t) :
    ∃ u, s.editAll (upToListing edits) = .ok u ∧ u.editAll (sinceListing edits) = .ok t ∧
      t.listed = u.columnNames := by
  induction edits using List.reverseRecOn generalizing t with
  | nil =>
    cases h
    exact ⟨s, rfl, rfl, hs⟩
  | append_singleton edits e ih =>
    have hall := h
    rw [editAll_append] at h
    obtain ⟨v, hv, h⟩ := bind_eq_ok_iff.1 h
    obtain ⟨w, he, hw⟩ := bind_eq_ok_iff.1 h
    cases hw
    rcases (edit_eq_ok he).2 with ⟨rfl, rfl⟩ | ⟨hne, hlisted⟩
    · obtain ⟨hupTo, hsince⟩ := listing_concat edits
      refine ⟨v.relist, ?_, ?_, v.listed_relist⟩
      · rw [hupTo]
        exact hall
      · rw [hsince]
        rfl
    · obtain ⟨hupTo, hsince⟩ := listing_concat_of_ne hne edits
      obtain ⟨u, hu, huv, hnames⟩ := ih hv
      refine ⟨u, ?_, ?_, hlisted.trans hnames⟩
      · rw [hupTo]
        exact hu
      · rw [hsince, editAll_append, huv]
        exact h

/-- The names of `u` pass for those of the columns of `s`: there are as many different ones. -/
def PassesFor (u s : Schema) : Prop := u.columnNames.eraseDups.length = s.columns.length

instance : Decidable (PassesFor u s) := inferInstanceAs (Decidable (_ = _))

theorem isListed_iff (h : s.listed = u.columnNames) : s.isListed = true ↔ PassesFor u s := by
  rw [isListed, h, beq_iff_eq]
  rfl

theorem position?_of_passes (h : s.listed = u.columnNames) (hp : PassesFor u s) (n : String) :
    s.position? n = u.columnNames.idxOf? n := by
  rw [position?_eq, if_pos ((isListed_iff h).2 hp), h]

theorem position?_of_not_passes (h : s.listed = u.columnNames) (hp : ¬ PassesFor u s)
    (n : String) : s.position? n = s.columnNames.idxOf? n := by
  rw [position?_eq, if_neg fun hl => hp ((isListed_iff h).1 hl)]

theorem column?_eq_error_iff {n : String} {e : Error} : s.column? n = .error e ↔
    ∃ i, s.position? n = some i ∧ s.columns.length ≤ i ∧ e = .outOfRange i s.columns.length := by
  rw [column?]
  cases s.position? n with
  | none => simp
  | some i =>
    simp only [columnAt, Option.some.injEq]
    cases hi : s.columns[i]? with
    | none =>
      have hle := List.getElem?_eq_none_iff.1 hi
      simp [Functor.map, Except.map, hle, eq_comm]
    | some c =>
      have hlt := (List.getElem?_eq_some_iff.1 hi).1
      refine iff_of_false (fun h => by cases h) ?_
      rintro ⟨j, rfl, hle, -⟩
      exact Nat.not_le.2 hlt hle

theorem column?_exists_ok_iff {n : String} :
    (∃ c?, s.column? n = .ok c?) ↔ ∀ i, s.position? n = some i → i < s.columns.length := by
  cases hc : s.column? n with
  | ok c? =>
    refine iff_of_true ⟨c?, rfl⟩ fun i hi => Nat.not_le.1 fun hle => ?_
    rw [column?_eq_error_iff.2 ⟨i, hi, hle, rfl⟩] at hc
    cases hc
  | error e =>
    obtain ⟨i, hi, hle, -⟩ := column?_eq_error_iff.1 hc
    refine iff_of_false ?_ fun h => Nat.not_lt.2 hle (h i hi)
    rintro ⟨c?, hok⟩
    cases hok

theorem column?_ok_iff (h : s.listed = u.columnNames) : (∀ n, ∃ c?, s.column? n = .ok c?) ↔
    (PassesFor u s → (u.columnNames.take s.columns.length).Nodup) := by
  simp only [column?_exists_ok_iff]
  by_cases hp : PassesFor u s
  · have hle : s.columns.length ≤ u.columnNames.length := hp ▸ Text.length_eraseDups_le _
    have hlength : u.columnNames.eraseDups.length =
        (u.columnNames.take s.columns.length).length := by
      rw [List.length_take_of_le hle]
      exact hp
    rw [forall_prop_of_true hp, Text.nodup_iff_subset hlength (List.take_subset _ _)]
    constructor
    · intro hall n hn
      cases hi : u.columnNames.idxOf? n with
      | none => exact absurd hn (List.idxOf?_eq_none_iff.1 hi)
      | some i =>
        refine (mem_take_iff hi).2 (hall n i ?_)
        rw [position?_of_passes h hp, hi]
    · intro hall n i hi
      rw [position?_of_passes h hp] at hi
      obtain ⟨hlt, hname, -⟩ := List.idxOf?_eq_some_iff.1 hi
      exact (mem_take_iff hi).1 (hall (hname ▸ List.getElem_mem hlt))
  · refine iff_of_true (fun n i hi => ?_) fun hpasses => absurd hpasses hp
    rw [position?_of_not_passes h hp] at hi
    obtain ⟨hlt, -⟩ := List.idxOf?_eq_some_iff.1 hi
    rwa [length_columnNames] at hlt

theorem position?_right_iff (h : s.listed = u.columnNames) :
    (∀ n, s.position? n = s.columnNames.idxOf? n) ↔
      (PassesFor u s → s.columnNames.Nodup ∧ s.columnNames <+: u.columnNames) := by
  by_cases hp : PassesFor u s
  · simp only [position?_of_passes h hp, forall_prop_of_true hp]
    exact Text.idxOf?_eq_iff (hp.trans s.length_columnNames.symm)
  · exact iff_of_true (position?_of_not_passes h hp) fun hpasses => absurd hpasses hp

/-- The check of foreign keys reads beyond the columns if the name of the first one that does not
start from a name that answers is found there. -/
theorem checkForeignKeys_eq_fault_iff {keys : List ForeignKey} {e : Error}
    (he : e.errorClass = .fault) : s.checkForeignKeys keys = .error e ↔
      ∃ before k after, keys = before ++ k :: after ∧ (∀ l ∈ before, l.column ∈ s.answering) ∧
        s.column? k.column = .error e := by
  induction keys with
  | nil => simp [checkForeignKeys]
  | cons k rest ih =>
    constructor
    · intro h
      rcases bind_eq_error_iff.1 h with h | ⟨c?, hc, h⟩
      · exact ⟨[], k, rest, rfl, List.forall_mem_nil _, h⟩
      · cases c? with
        | none =>
          cases h
          cases he
        | some c =>
          obtain ⟨before, l, after, rfl, hbefore, hl⟩ := ih.1 h
          have hk : k.column ∈ s.answering := column?_exists_iff.1 ⟨c, hc⟩
          exact ⟨k :: before, l, after, rfl, List.forall_mem_cons.2 ⟨hk, hbefore⟩, hl⟩
    · rintro ⟨before, l, after, hkeys, hbefore, hl⟩
      cases before with
      | nil =>
        cases hkeys
        exact bind_eq_error_iff.2 (.inl hl)
      | cons m before =>
        cases hkeys
        obtain ⟨hm, hbefore⟩ := List.forall_mem_cons.1 hbefore
        obtain ⟨c, hc⟩ := column?_exists_iff.2 hm
        have hrest := ih.2 ⟨before, l, after, rfl, hbefore, hl⟩
        exact bind_eq_error_iff.2 (.inr ⟨some c, hc, hrest⟩)

theorem check_fault_iff : (∃ e, s.check = .error e ∧ e.errorClass = .fault) ↔
    s.columns ≠ [] ∧ s.Proper ∧ ∃ before k after, s.foreignKeys = before ++ k :: after ∧
      (∀ l ∈ before, l.column ∈ s.answering) ∧
      ∃ i, s.position? k.column = some i ∧ s.columns.length ≤ i := by
  constructor
  · rintro ⟨e, he, hfault⟩
    obtain ⟨hcolumns, hproper, hkeys⟩ := (check_eq_fault_iff hfault).1 he
    obtain ⟨before, k, after, hsplit, hbefore, hk⟩ := (checkForeignKeys_eq_fault_iff hfault).1 hkeys
    obtain ⟨i, hi, hle, -⟩ := column?_eq_error_iff.1 hk
    exact ⟨hcolumns, hproper, before, k, after, hsplit, hbefore, i, hi, hle⟩
  · rintro ⟨hcolumns, hproper, before, k, after, hsplit, hbefore, i, hi, hle⟩
    have hfault : (Error.outOfRange i s.columns.length).errorClass = .fault := rfl
    have hk := column?_eq_error_iff.2 ⟨i, hi, hle, rfl⟩
    have hkeys := (checkForeignKeys_eq_fault_iff hfault).2 ⟨before, k, after, hsplit, hbefore, hk⟩
    exact ⟨_, (check_eq_fault_iff hfault).2 ⟨hcolumns, hproper, hkeys⟩, hfault⟩

/-- A schema of any columns after any changes of them, with the schema `u` that it was when its
columns were listed last. As long as the names of `u` are as many different ones as there are
columns, they pass for the names of these, and otherwise the names of the columns count
themselves. So every name is found at its first column, or not at all if there is none, exactly if
the names of `u` do not pass, or the columns have different names and those of `u` begin with
them. No lookup reads beyond the columns exactly if the names of `u` do not pass, or as many of
them as there are columns, the first ones, are different. The check of the schema reads there
exactly if it comes to the foreign keys, and the column of the first one whose name does not answer
is looked for there. -/
theorem edited_lookups {name : String} {columns : List Column} {keys : List ForeignKey}
    (h : ((ofColumns name columns).withForeignKeys keys).editAll edits = .ok s) :
    ∃ u, ((ofColumns name columns).withForeignKeys keys).editAll (upToListing edits) = .ok u ∧
      u.editAll (sinceListing edits) = .ok s ∧
      (∀ n, s.position? n =
        if PassesFor u s then u.columnNames.idxOf? n else s.columnNames.idxOf? n) ∧
      ((∀ n, s.position? n = s.columnNames.idxOf? n) ↔
        (PassesFor u s → s.columnNames.Nodup ∧ s.columnNames <+: u.columnNames)) ∧
      ((∀ n, ∃ c?, s.column? n = .ok c?) ↔
        (PassesFor u s → (u.columnNames.take s.columns.length).Nodup)) ∧
      ((∃ e, s.check = .error e ∧ e.errorClass = .fault) ↔
        s.columns ≠ [] ∧ s.Proper ∧ ∃ before k after, keys = before ++ k :: after ∧
          (∀ l ∈ before, l.column ∈ s.answering) ∧
          ∃ i, s.position? k.column = some i ∧ s.columns.length ≤ i) := by
  obtain ⟨u, hu, hs, hlisted⟩ := (listed_ofColumns name columns keys).editAll h
  refine ⟨u, hu, hs, fun n => ?_, position?_right_iff hlisted, column?_ok_iff hlisted, ?_⟩
  · split
    · rename_i hpasses
      exact position?_of_passes hlisted hpasses n
    · rename_i hpasses
      exact position?_of_not_passes hlisted hpasses n
  · have hkeys : s.foreignKeys = keys := foreignKeys_editAll h
    rw [← hkeys]
    exact check_fault_iff

def payments : Schema :=
  ofColumns "payments" [⟨"id", .int, true, false⟩, .plain "customer" .int]

theorem edited_lookups_payments :
    ∃ s, (payments.withForeignKeys []).editAll
        [.push (.plain "customer" .text), .relist, .remove 2] = .ok s ∧
      (∀ n, s.position? n = s.columnNames.idxOf? n) ∧ ∀ n, ∃ c?, s.column? n = .ok c? := by
  have hedited : (payments.withForeignKeys []).editAll
      [.push (.plain "customer" .text), .relist, .remove 2] =
      .ok ⟨"payments", payments.columns, [], ["id", "customer", "customer"]⟩ := rfl
  obtain ⟨u, hu, -, -, hright, hrange, -⟩ := edited_lookups hedited
  have hlisted : (payments.withForeignKeys []).editAll
      [.push (.plain "customer" .text), .relist] = .ok u := hu
  cases hlisted
  exact ⟨_, hedited, hright.2 fun _ => by decide, hrange.2 fun _ => by decide⟩

def muddled : Schema :=
  (ofColumns "payments" [⟨"id", .int, true, false⟩, .plain "id" .text,
    .plain "customer" .int]).withForeignKeys [⟨"customer", "customers", "id"⟩]

/-- When the second column is gone, there are as many columns as there were names. The last name
is still looked for where its column was, beyond the columns that are left. -/
theorem edited_lookups_muddled :
    ∃ s, muddled.editAll [.remove 1] = .ok s ∧ s.columnNames = ["id", "customer"] ∧
      s.position? "customer" = some 2 ∧ s.columnNames.idxOf? "customer" = some 1 ∧
      s.column? "customer" = .error (.outOfRange 2 2) ∧
      s.check = .error (.outOfRange 2 2) :=
  ⟨_, rfl, rfl, rfl, rfl, rfl, rfl⟩

end Schema
end RelStore
