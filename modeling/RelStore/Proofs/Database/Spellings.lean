import Mathlib.Data.List.Perm.Basic
import RelStore.Proofs.Database.Assign
import RelStore.Proofs.Statement.Names

/-! The columns that the assignments of an update change. A column of a table has two
spellings, its name and its name behind that of the table. Assignments of different spellings
can meet in one column, and only so. -/
namespace RelStore

theorem eq_of_splitName? {name table column : String}
    (h : splitName? name = some (table, column)) : name = table ++ "." ++ column := by
  unfold splitName? at h
  dsimp only at h
  split at h
  · cases h
  · rename_i d rest hrest
    have hdot : d = '.' := by
      have hd := List.head_dropWhile_not (p := (· != '.')) (l := name.toList) (by simp [hrest])
      simpa [hrest] using hd
    have hparts : name.toList = name.toList.takeWhile (· != '.') ++ '.' :: rest := by
      have happend := List.takeWhile_append_dropWhile (p := (· != '.')) (l := name.toList)
      rwa [hrest, hdot, eq_comm] at happend
    simp only [Option.some.injEq, Prod.mk.injEq] at h
    obtain ⟨rfl, rfl⟩ := h
    refine String.toList_inj.1 ?_
    simpa [String.toList_append, String.toList_ofList] using hparts

namespace Attribute
variable {a : Attribute} {name : String}

theorem spelled (h : a.answersTo name = true) : name = a.name ∨ name = a.qualified := by
  unfold answersTo at h
  split at h
  · rename_i table column hsplit
    obtain ⟨rfl, rfl⟩ : a.table = table ∧ a.name = column := by simpa using h
    exact .inr (eq_of_splitName? hsplit)
  · exact .inl (by simpa using Eq.symm (beq_iff_eq.1 h))

theorem name_ne_qualified (a : Attribute) : a.name ≠ a.qualified := by
  intro h
  have hlength := congrArg String.length h
  rw [qualified, String.length_append, String.length_append] at hlength
  have hdot : ".".length = 1 := rfl
  omega

end Attribute

namespace Heading
variable {h : Heading}

theorem spelled_of_resolve? {name : String} {i : Nat} (hr : resolve? h name = some i) :
    ∃ a, h[i]? = some a ∧ (name = a.name ∨ name = a.qualified) := by
  have hi : i ∈ positions h name := by simp [resolve?_eq_some_iff.1 hr]
  obtain ⟨k, a, hget, ha, rfl⟩ := mem_positionsFrom.1 hi
  rw [Nat.zero_add]
  exact ⟨a, hget, Attribute.spelled ha⟩

/-- Among some names, both spellings of a column that stand for it. -/
def NamedTwice (h : Heading) (names : List String) : Prop :=
  ∃ i a, h[i]? = some a ∧ a.name ∈ names ∧ a.qualified ∈ names ∧
    resolve? h a.name = some i ∧ resolve? h a.qualified = some i

/-- Different names stand for different columns unless a column is named twice. -/
theorem nodup_map_resolve?_iff {names : List String} (hn : names.Nodup)
    (hr : ∀ name ∈ names, ∃ i, resolve? h name = some i) :
    (names.map (resolve? h)).Nodup ↔ ¬ NamedTwice h names := by
  rw [List.nodup_map_iff_inj_on hn]
  constructor
  · rintro hinj ⟨i, a, -, hname, hqualified, hi, hi'⟩
    exact a.name_ne_qualified (hinj _ hname _ hqualified (hi.trans hi'.symm))
  · intro hnot x hx y hy hxy
    by_contra hne
    obtain ⟨i, hi⟩ := hr x hx
    have hi' : resolve? h y = some i := hxy ▸ hi
    obtain ⟨a, ha, hxa⟩ := spelled_of_resolve? hi
    obtain ⟨b, hb, hyb⟩ := spelled_of_resolve? hi'
    obtain rfl : a = b := Option.some.inj (ha.symm.trans hb)
    rcases hxa with rfl | rfl
    · rcases hyb with rfl | rfl
      · exact hne rfl
      · exact hnot ⟨i, a, ha, hx, hy, hi, hi'⟩
    · rcases hyb with rfl | rfl
      · exact hnot ⟨i, a, ha, hy, hx, hi', hi⟩
      · exact hne rfl

end Heading

theorem Statement.nodup_of_parse {text table : String} {assignments : List (String × Value)}
    {c : Condition} (h : parse text = .ok (.update table assignments c)) :
    (assignments.map Prod.fst).Nodup := by
  have hderives := ofTokens_ok_iff_derives.1 h
  generalize (proper (Token.scan text)).map Token.kind = us at hderives
  cases hderives with
  | update _ hd _ => exact hd

namespace Database
variable {t : Table} {assignments others : List (String × Value)} {changes : List (Nat × Value)}

/-- A name and a value, and the position of the column that takes the value. -/
structure Assigns (t : Table) (a : String × Value) (c : Nat × Value) : Prop where
  position : Heading.resolve? (.ofSchema t.schema) a.1 = some c.1
  value : c.2 = a.2
  typed : ∃ column, t.schema.columns[c.1]? = some column ∧ c.2.type = column.type

theorem resolveAssignments_eq_ok_iff :
    resolveAssignments t assignments = .ok changes ↔
      List.Forall₂ (Assigns t) assignments changes := by
  induction assignments generalizing changes with
  | nil => simp [resolveAssignments, eq_comm]
  | cons a rest ih =>
    obtain ⟨name, v⟩ := a
    simp only [resolveAssignments, bind_eq_ok_iff, Heading.resolve_eq_ok_iff,
      Schema.columnAt_eq_ok_iff, ensure_eq_ok_iff, List.forall₂_cons_left_iff, ih]
    constructor
    · rintro ⟨i, hi, column, hcolumn, -, htype, rest', hrest, h⟩
      cases h
      exact ⟨(i, v), rest', ⟨hi, rfl, column, hcolumn, htype⟩, hrest, rfl⟩
    · rintro ⟨⟨i, w⟩, rest', ⟨hi, hv, column, hcolumn, htype⟩, hrest, rfl⟩
      obtain rfl : w = v := hv
      exact ⟨i, hi, column, hcolumn, (), htype, rest', hrest, rfl⟩

theorem map_resolve?_of_assigns (h : List.Forall₂ (Assigns t) assignments changes) :
    (assignments.map Prod.fst).map (Heading.resolve? (.ofSchema t.schema)) =
      (changes.map Prod.fst).map some := by
  induction h with
  | nil => rfl
  | cons ha _ ih => simp [ha.position, ih]

def SingleValued (changes : List (Nat × Value)) : Prop :=
  ∀ x ∈ changes, ∀ y ∈ changes, x.1 = y.1 → x.2 = y.2

theorem SingleValued.of_nodup (h : (changes.map Prod.fst).Nodup) : SingleValued changes := by
  intro x hx y hy hxy
  rw [List.inj_on_of_nodup_map h hx hy hxy]

theorem mem_of_assigned {i : Nat} {v : Value} (h : assigned changes i = some v) :
    (i, v) ∈ changes := by
  induction changes with
  | nil => cases h
  | cons c rest ih =>
    obtain ⟨j, w⟩ := c
    rw [assigned, Option.or_eq_some_iff] at h
    rcases h with h | ⟨-, h⟩
    · exact List.mem_cons_of_mem _ (ih h)
    · split at h
      · rename_i hji
        cases h
        rw [hji]
        exact List.mem_cons_self
      · cases h

theorem assigned_append (l r : List (Nat × Value)) (i : Nat) :
    assigned (l ++ r) i = (assigned r i).or (assigned l i) := by
  induction l with
  | nil => simp [assigned]
  | cons c l ih => rw [List.cons_append, assigned, ih, assigned, Option.or_assoc]

theorem assigned_of_mem {i : Nat} {v : Value} (h : (i, v) ∈ changes) :
    ∃ w, assigned changes i = some w := by
  obtain ⟨l, r, rfl⟩ := List.append_of_mem h
  rw [assigned_append, assigned, if_pos rfl]
  cases assigned r i with
  | none => exact ⟨v, rfl⟩
  | some w => exact ⟨w, rfl⟩

theorem SingleValued.assigned_eq_some_iff (h : SingleValued changes) {i : Nat} {v : Value} :
    assigned changes i = some v ↔ (i, v) ∈ changes := by
  refine ⟨mem_of_assigned, fun hv => ?_⟩
  obtain ⟨w, hw⟩ := assigned_of_mem hv
  rw [hw, show w = v from h _ (mem_of_assigned hw) _ hv rfl]

theorem SingleValued.assigned_perm (h : SingleValued changes) {changes' : List (Nat × Value)}
    (hp : changes'.Perm changes) (i : Nat) : assigned changes' i = assigned changes i := by
  have h' : SingleValued changes' := fun x hx y hy => h x (hp.subset hx) y (hp.subset hy)
  ext v
  rw [h'.assigned_eq_some_iff, h.assigned_eq_some_iff, hp.mem_iff]

theorem SingleValued.assign_perm (h : SingleValued changes) {changes' : List (Nat × Value)}
    {row : Row} (hp : changes'.Perm changes) (hw : ∀ c ∈ changes, c.1 < row.length) :
    assign changes' row = assign changes row := by
  obtain ⟨new, hnew⟩ := assign_exists hw
  obtain ⟨new', hnew'⟩ := assign_exists fun c hc => hw c (hp.subset hc)
  have hcells : new' = new := List.ext_getElem? fun i => by
    rw [assign_cell hnew', assign_cell hnew, h.assigned_perm hp]
  rw [hnew, hnew', hcells]

theorem SingleValued.of_perm {row : Row} (hw : ∀ c ∈ changes, c.1 < row.length)
    (h : ∀ changes', changes'.Perm changes → assign changes' row = assign changes row) :
    SingleValued changes := by
  obtain ⟨new, hnew⟩ := assign_exists hw
  -- any of the assignments may be the last one
  have hlast : ∀ x ∈ changes, new[x.1]? = some x.2 := by
    intro x hx
    obtain ⟨l, r, rfl⟩ := List.append_of_mem hx
    have hp : (l ++ r ++ [x]).Perm (l ++ x :: r) :=
      (List.perm_append_singleton x (l ++ r)).trans List.perm_middle.symm
    have hmoved := (h _ hp).trans hnew
    rw [assign_cell hmoved, assigned_append, assigned, if_pos rfl]
    rfl
  intro x hx y hy hxy
  have hy' := hlast y hy
  rw [← hxy, hlast x hx] at hy'
  exact Option.some.inj hy'

theorem assigns_perm (h : List.Forall₂ (Assigns t) assignments changes)
    (hp : others.Perm assignments) :
    ∃ changes', List.Forall₂ (Assigns t) others changes' ∧ changes'.Perm changes :=
  List.perm_comp_forall₂ hp h

theorem assigns_perm_symm (h : List.Forall₂ (Assigns t) assignments changes)
    {changes' : List (Nat × Value)} (hp : changes'.Perm changes) :
    ∃ others, List.Forall₂ (Assigns t) others changes' ∧ others.Perm assignments := by
  obtain ⟨others, hothers, hp'⟩ := List.perm_comp_forall₂ hp h.flip
  exact ⟨others, hothers.flip, hp'⟩

/-- The assignments of an update that was read name every column once, or once by its name and
once behind the name of the table. They change different columns exactly if no column is named
in both ways. Their order makes no difference to any row exactly if no column is to have two
values, as when they change different columns. -/
theorem positions_nodup_iff {text name : String} {c : Condition}
    (hparse : Statement.parse text = .ok (.update name assignments c))
    (hresolve : resolveAssignments t assignments = .ok changes) :
    (assignments.map Prod.fst).Nodup ∧
    ((changes.map Prod.fst).Nodup ↔
      ¬ Heading.NamedTwice (.ofSchema t.schema) (assignments.map Prod.fst)) ∧
    ((changes.map Prod.fst).Nodup → SingleValued changes) ∧
    (SingleValued changes ↔
      ∀ others, others.Perm assignments → ∃ changes',
        resolveAssignments t others = .ok changes' ∧
        ∀ row : Row, row.length = t.schema.columns.length →
          assign changes' row = assign changes row) := by
  have hassigns := resolveAssignments_eq_ok_iff.1 hresolve
  have hnames := Statement.nodup_of_parse hparse
  have hwidth := resolveAssignments_lt hresolve
  refine ⟨hnames, ?_, .of_nodup, ?_, ?_⟩
  · have hsome : ∀ n ∈ assignments.map Prod.fst,
        ∃ i, Heading.resolve? (.ofSchema t.schema) n = some i := by
      intro n hn
      have hmem := List.mem_map_of_mem hn (f := Heading.resolve? (.ofSchema t.schema))
      rw [map_resolve?_of_assigns hassigns] at hmem
      obtain ⟨i, -, hi⟩ := List.mem_map.1 hmem
      exact ⟨i, hi.symm⟩
    rw [← Heading.nodup_map_resolve?_iff hnames hsome, map_resolve?_of_assigns hassigns,
      List.nodup_map_iff (Option.some_injective Nat)]
  · intro hsingle others hp
    obtain ⟨changes', hothers, hp'⟩ := assigns_perm hassigns hp
    refine ⟨changes', resolveAssignments_eq_ok_iff.2 hothers, fun row hrow => ?_⟩
    exact hsingle.assign_perm hp' fun x hx => hrow ▸ hwidth x hx
  · intro horder
    have hlength : (List.replicate t.schema.columns.length (Value.int 0)).length =
        t.schema.columns.length := List.length_replicate
    refine .of_perm (fun x hx => (hwidth x hx).trans_eq hlength.symm) fun changes' hp => ?_
    obtain ⟨others, hothers, hp'⟩ := assigns_perm_symm hassigns hp
    obtain ⟨changes'', hresolve', hrows⟩ := horder others hp'
    rw [resolveAssignments_eq_ok_iff.2 hothers] at hresolve'
    cases hresolve'
    exact hrows _ hlength

def tally : Table :=
  ⟨.ofColumns "t" [⟨"id", .int, true, false⟩, .plain "a" .int], 0, .empty, [(0, .empty "id")]⟩

def recount : String := "UPDATE t SET a = 1, t.a = 2 WHERE id = 1"

theorem positions_nodup_iff_tally :
    Statement.parse recount =
      .ok (.update "t" [("a", .int 1), ("t.a", .int 2)] (.equals "id" (.int 1))) ∧
    resolveAssignments tally [("a", .int 1), ("t.a", .int 2)] =
      .ok [(1, .int 1), (1, .int 2)] ∧
    Heading.NamedTwice (.ofSchema tally.schema) ["a", "t.a"] := by
  have hparse : Statement.parse recount =
      .ok (.update "t" [("a", .int 1), ("t.a", .int 2)] (.equals "id" (.int 1))) := by
    decide +kernel
  have hresolve : resolveAssignments tally [("a", .int 1), ("t.a", .int 2)] =
      .ok [(1, .int 1), (1, .int 2)] := by
    decide +kernel
  obtain ⟨-, hnodup, -⟩ := positions_nodup_iff hparse hresolve
  refine ⟨hparse, hresolve, ?_⟩
  by_contra hnot
  exact absurd (hnodup.2 hnot) (by decide)

/-- An update that was read and whose columns are those of the table can change one of them
twice. -/
theorem positions_not_nodup :
    ¬ ∀ (text name : String) (assignments : List (String × Value)) (c : Condition) (t : Table)
        (changes : List (Nat × Value)),
      Statement.parse text = .ok (.update name assignments c) →
      resolveAssignments t assignments = .ok changes → (changes.map Prod.fst).Nodup := by
  intro h
  have hnodup := h recount "t" [("a", .int 1), ("t.a", .int 2)] (.equals "id" (.int 1)) tally
    [(1, .int 1), (1, .int 2)] (by decide +kernel) (by decide +kernel)
  exact absurd hnodup (by decide)

end Database
end RelStore
