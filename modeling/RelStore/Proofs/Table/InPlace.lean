import Mathlib.Data.List.Perm.Basic
import RelStore.Proofs.Table.RowChange

/-! Calls as they are carried out: all checks first, then a change of one part of the table
after the other, and the indexes in no order that one could know. What was changed before an
error would stay changed. But on a table that calls have formed there is no error once the
changes have begun, so a call makes the table that it is said to make, or it changes nothing. -/
namespace RelStore
namespace Table

variable {s : Schema} {t u w : Table} {c : Call} {α : Type}

abbrev InPlace (α : Type) := ExceptT Error (StateM Table) α

/-- Changes indexes one after the other. After an error the rest of them is as before. -/
def eachInPlace (f : Nat → Index → Except Error Index) :
    List (Nat × Index) → Except Error Unit × List (Nat × Index)
  | [] => (.ok (), [])
  | (i, ix) :: rest =>
    match f i ix with
    | .error e => (.error e, (i, ix) :: rest)
    | .ok ix' => ((eachInPlace f rest).1, (i, ix') :: (eachInPlace f rest).2)

def changeIndexes (f : Nat → Index → Except Error Index) : InPlace Unit := do
  let t ← get
  let (result, indexes) := eachInPlace f t.indexes
  set { t with indexes }
  result

def insertable (t : Table) (row : Row) : Except Error Value := do
  t.schema.checkRow row
  let key ← Row.cell row t.keyPosition
  ensure (t.rows.contains key = false) (.takenKey key)
  checkInsert row t.keyPosition t.indexes
  pure key

/-- The row under a key and what `f` makes of it, if this can take its place. -/
def editable (t : Table) (key : Value) (f : Row → Except Error Row) : Except Error (Row × Row) := do
  let some old := t.rows.get? key | throw (.noRow key t.name)
  let new ← f old
  t.schema.checkRow new
  let newKey ← Row.cell new t.keyPosition
  let oldKey ← Row.cell old t.keyPosition
  ensure (newKey = oldKey) .changedKey
  checkReplace old new key t.keyPosition t.indexes
  pure (old, new)

def erasable (t : Table) (key : Value) : Except Error Row := do
  let some row := t.rows.get? key | throw (.noRow key t.name)
  pure row

/-- Carries out a call. An erased row goes before its entries in the indexes, and any other
row comes after them. -/
def perform : Call → InPlace Unit
  | .insert row => do
    let t ← get
    let key ← (t.insertable row : Except Error Value)
    changeIndexes (entering row key)
    modify fun t => { t with rows := t.rows.insert key row }
  | .update key row => edit key fun _ => .ok row
  | .edit key f => edit key f
  | .erase key => do
    let t ← get
    let row ← (t.erasable key : Except Error Row)
    modify fun t => { t with rows := t.rows.erase key }
    changeIndexes (leaving row)
where
  edit (key : Value) (f : Row → Except Error Row) : InPlace Unit := do
    let t ← get
    let (old, new) ← (t.editable key f : Except Error (Row × Row))
    changeIndexes (replacing old new key t.keyPosition)
    modify fun t => { t with rows := t.rows.insert key new }

theorem InPlace.run_bind {β : Type} (x : InPlace α) (f : α → InPlace β) (t : Table) :
    (x >>= f).run.run t = match x.run.run t with
      | (.ok a, u) => (f a).run.run u
      | (.error e, u) => (.error e, u) := by
  rw [ExceptT.run_bind, StateT.run_bind]
  show (match x.run.run t with | (r, u) => _ : Except Error β × Table) = _
  rcases x.run.run t with ⟨_ | _, u⟩ <;> rfl

@[simp] theorem InPlace.run_get (t : Table) : (get : InPlace Table).run.run t = (.ok t, t) := rfl

@[simp] theorem InPlace.run_lift (x : Except Error α) (t : Table) :
    (liftM x : InPlace α).run.run t = (x, t) := by
  cases x <;> rfl

@[simp] theorem InPlace.run_modify (f : Table → Table) (t : Table) :
    (modify f : InPlace PUnit).run.run t = (.ok ⟨⟩, f t) := rfl

variable {f : Nat → Index → Except Error Index} {l l' m : List (Nat × Index)}

theorem eachInPlace_of_turn (h : turn f l = .ok l') : eachInPlace f l = (.ok (), l') := by
  induction l generalizing l' with
  | nil =>
    cases h
    rfl
  | cons e rest ih =>
    obtain ⟨i, ix⟩ := e
    obtain ⟨ix', hix, h⟩ := bind_eq_ok_iff.1 h
    obtain ⟨rest', hrest, h⟩ := bind_eq_ok_iff.1 h
    cases h
    simp [eachInPlace, hix, ih hrest]

theorem run_changeIndexes (h : turn f t.indexes = .ok l) :
    (changeIndexes f).run.run t = (.ok (), { t with indexes := l }) := by
  simp only [changeIndexes, InPlace.run_bind, InPlace.run_get, eachInPlace_of_turn h]
  rfl

theorem insert_eq_insertable (t : Table) (row : Row) : t.insert row = (do
    let key ← t.insertable row
    let indexes ← turn (entering row key) t.indexes
    pure { t with rows := t.rows.insert key row, indexes }) := by
  simp only [insert, insertable, enter_eq_turn, bind_assoc, pure_bind]

theorem edit_eq_editable (t : Table) (key : Value) (f : Row → Except Error Row) :
    t.edit key f = (do
      let (old, new) ← t.editable key f
      let indexes ← turn (replacing old new key t.keyPosition) t.indexes
      pure { t with rows := t.rows.insert key new, indexes }) := by
  unfold edit editable
  cases t.rows.get? key with
  | none => rfl
  | some old => simp only [reenter_eq_turn, bind_assoc, pure_bind]

theorem erase_eq_erasable (t : Table) (key : Value) : t.erase key = (do
    let row ← t.erasable key
    let indexes ← turn (leaving row) t.indexes
    pure (row, { t with rows := t.rows.erase key, indexes })) := by
  unfold erase erasable
  cases t.rows.get? key with
  | none => rfl
  | some row => simp only [leave_eq_turn, pure_bind]

/-- Each index is that of a column, and each row has a cell for every column. -/
structure Wide (t : Table) : Prop where
  indexes : ∀ e ∈ t.indexes, e.1 < t.schema.columns.length
  rows : ∀ {key row}, t.row? key = some row → row.length = t.schema.columns.length

/-- A row that is as long as the columns has a cell for each index. -/
theorem Wide.cell_exists (h : t.Wide) {row : Row} (hrow : row.length = t.schema.columns.length) :
    ∀ e ∈ t.indexes, ∃ v, row[e.1]? = some v := by
  intro e he
  have hlt : e.1 < row.length := hrow ▸ h.indexes e he
  exact ⟨row[e.1], List.getElem?_eq_getElem hlt⟩

theorem length_of_insertable {row : Row} {key : Value} (h : t.insertable row = .ok key) :
    row.length = t.schema.columns.length := by
  obtain ⟨⟨⟩, hrow, -⟩ := bind_eq_ok_iff.1 h
  exact Schema.length_of_types (Schema.checkRow_eq_ok_iff.1 hrow)

theorem lengths_of_editable (ht : t.Wide) {key : Value} {f : Row → Except Error Row}
    {old new : Row} (h : t.editable key f = .ok (old, new)) :
    old.length = t.schema.columns.length ∧ new.length = t.schema.columns.length := by
  unfold editable at h
  cases hold : t.rows.get? key with
  | none =>
    rw [hold] at h
    cases h
  | some row =>
    rw [hold] at h
    simp only [bind_eq_ok_iff] at h
    obtain ⟨made, -, ⟨⟩, hmade, newKey, -, oldKey, -, ⟨⟩, -, ⟨⟩, -, h⟩ := h
    cases h
    exact ⟨ht.rows hold, Schema.length_of_types (Schema.checkRow_eq_ok_iff.1 hmade)⟩

theorem erasable_eq_ok_iff {key : Value} {row : Row} :
    t.erasable key = .ok row ↔ t.row? key = some row := by
  unfold erasable row?
  cases t.rows.get? key with
  | none => simp
  | some row' => simp [pure, Except.pure]

def outcome (t : Table) (c : Call) : Except Error Unit × Table :=
  ((t.attempt c).map fun _ => (), t.after c)

theorem outcome_of_ok (h : t.attempt c = .ok u) : t.outcome c = (.ok (), u) := by
  rw [outcome, h, after_of_ok h]
  rfl

theorem outcome_of_error {e : Error} (h : t.attempt c = .error e) :
    t.outcome c = (.error e, t) := by
  rw [outcome, h, after_of_error h]
  rfl

theorem Wide.run_insert (ht : t.Wide) (row : Row) :
    (perform (.insert row)).run.run t = t.outcome (.insert row) := by
  have hcall : t.attempt (.insert row) = t.insert row := rfl
  rw [insert_eq_insertable] at hcall
  simp only [perform, InPlace.run_bind, InPlace.run_get, InPlace.run_lift]
  cases hkey : t.insertable row with
  | error e =>
    rw [hkey] at hcall
    exact (outcome_of_error hcall).symm
  | ok key =>
    have hlength := length_of_insertable hkey
    obtain ⟨indexes, hturn⟩ := turn_entering_exists key (ht.cell_exists hlength)
    rw [hkey, ok_bind, hturn, ok_bind] at hcall
    simp only [run_changeIndexes hturn, InPlace.run_modify]
    exact (outcome_of_ok hcall).symm

theorem Wide.run_edit (ht : t.Wide) (key : Value) (f : Row → Except Error Row) :
    (perform.edit key f).run.run t = t.outcome (.edit key f) := by
  have hcall : t.attempt (.edit key f) = t.edit key f := rfl
  rw [edit_eq_editable] at hcall
  simp only [perform.edit, InPlace.run_bind, InPlace.run_get, InPlace.run_lift]
  cases hrows : t.editable key f with
  | error e =>
    rw [hrows] at hcall
    exact (outcome_of_error hcall).symm
  | ok rows =>
    obtain ⟨old, new⟩ := rows
    obtain ⟨hold, hnew⟩ := lengths_of_editable ht hrows
    obtain ⟨indexes, hturn⟩ := turn_replacing_exists key t.keyPosition
      (ht.cell_exists hold) (ht.cell_exists hnew)
    rw [hrows, ok_bind] at hcall
    simp only [hturn, ok_bind] at hcall
    simp only [run_changeIndexes hturn, InPlace.run_modify]
    exact (outcome_of_ok hcall).symm

theorem Wide.run_erase (ht : t.Wide) (key : Value) :
    (perform (.erase key)).run.run t = t.outcome (.erase key) := by
  have hcall : t.attempt (.erase key) = (t.erase key).map (·.2) := rfl
  rw [erase_eq_erasable] at hcall
  simp only [perform, InPlace.run_bind, InPlace.run_get, InPlace.run_lift]
  cases hrow : t.erasable key with
  | error e =>
    rw [hrow] at hcall
    exact (outcome_of_error hcall).symm
  | ok row =>
    have hlength := ht.rows (erasable_eq_ok_iff.1 hrow)
    obtain ⟨indexes, hturn⟩ := turn_leaving_exists (ht.cell_exists hlength)
    rw [hrow, ok_bind, hturn, ok_bind] at hcall
    simp only [InPlace.run_modify]
    rw [run_changeIndexes (t := { t with rows := t.rows.erase key }) hturn]
    exact (outcome_of_ok hcall).symm

/-- A call that is carried out in place makes the table that it is said to make, or nothing
changes. -/
theorem Wide.run_perform (ht : t.Wide) (c : Call) : (perform c).run.run t = t.outcome c := by
  cases c with
  | insert row => exact ht.run_insert row
  | update key row => exact ht.run_edit key fun _ => .ok row
  | edit key f => exact ht.run_edit key f
  | erase key => exact ht.run_erase key

def withIndexes (t : Table) (l : List (Nat × Index)) : Table := { t with indexes := l }

theorem turn_perm (hp : m.Perm l) (h : turn f l = .ok l') :
    ∃ m', turn f m = .ok m' ∧ m'.Perm l' := by
  obtain ⟨m', hm, hperm⟩ := List.perm_comp_forall₂ hp (turn_eq_ok_iff.1 h)
  exact ⟨m', turn_eq_ok_iff.2 hm, hperm⟩

theorem insert_withIndexes {row : Row} (hl : l.Perm t.indexes) (h : t.insert row = .ok u) :
    ∃ m, (t.withIndexes l).insert row = .ok (u.withIndexes m) ∧ m.Perm u.indexes := by
  obtain ⟨htyped, key, indexes, hkey, hnone, hfree, hturn, rfl⟩ := insert_eq_ok_iff.1 h
  obtain ⟨m, hm, hperm⟩ := turn_perm hl hturn
  have hfree' : ∀ e ∈ l, e.1 ≠ t.keyPosition → ∃ v, row[e.1]? = some v ∧ e.2.key? v = none :=
    fun e he => hfree e (hl.mem_iff.1 he)
  exact ⟨m, insert_eq_ok_iff.2 ⟨htyped, key, m, hkey, hnone, hfree', hm, rfl⟩, hperm⟩

theorem edit_withIndexes {key : Value} {f : Row → Except Error Row} (hl : l.Perm t.indexes)
    (h : t.edit key f = .ok u) :
    ∃ m, (t.withIndexes l).edit key f = .ok (u.withIndexes m) ∧ m.Perm u.indexes := by
  obtain ⟨old, new, k, indexes, hold, hnew, htyped, hk, hk', hfree, hturn, rfl⟩ :=
    edit_eq_ok_iff.1 h
  obtain ⟨m, hm, hperm⟩ := turn_perm hl hturn
  have hfree' := fun e he => hfree e (hl.mem_iff.1 he)
  exact ⟨m, edit_eq_ok_iff.2 ⟨old, new, k, m, hold, hnew, htyped, hk, hk', hfree', hm, rfl⟩,
    hperm⟩

theorem erase_withIndexes {key : Value} {row : Row} (hl : l.Perm t.indexes)
    (h : t.erase key = .ok (row, u)) :
    ∃ m, (t.withIndexes l).erase key = .ok (row, u.withIndexes m) ∧ m.Perm u.indexes := by
  obtain ⟨hrow, indexes, hturn, rfl⟩ := erase_eq_ok_iff.1 h
  obtain ⟨m, hm, hperm⟩ := turn_perm hl hturn
  exact ⟨m, erase_eq_ok_iff.2 ⟨hrow, m, hm, rfl⟩, hperm⟩

/-- What succeeds with the indexes in one order succeeds in every other one. -/
theorem attempt_withIndexes (hl : l.Perm t.indexes) (h : t.attempt c = .ok u) :
    ∃ m, (t.withIndexes l).attempt c = .ok (u.withIndexes m) ∧ m.Perm u.indexes := by
  cases c with
  | insert row => exact insert_withIndexes hl h
  | update key row => exact edit_withIndexes hl h
  | edit key f => exact edit_withIndexes hl h
  | erase key =>
    obtain ⟨row, hrow⟩ := attempt_erase_eq_ok_iff.1 h
    obtain ⟨m, hm, hperm⟩ := erase_withIndexes hl hrow
    exact ⟨m, attempt_erase_eq_ok_iff.2 ⟨row, hm⟩, hperm⟩

theorem after_withIndexes (hl : l.Perm t.indexes) (c : Call) :
    ∃ m, (t.withIndexes l).after c = (t.after c).withIndexes m ∧ m.Perm (t.after c).indexes := by
  cases hcall : t.attempt c with
  | ok u =>
    obtain ⟨m, hm, hperm⟩ := attempt_withIndexes hl hcall
    rw [after_of_ok hcall]
    exact ⟨m, after_of_ok hm, hperm⟩
  | error e =>
    rw [after_of_error hcall]
    cases hother : (t.withIndexes l).attempt c with
    | error e' => exact ⟨l, after_of_error hother, hl⟩
    | ok u =>
      -- back in the first order it would have succeeded there
      obtain ⟨m, hm, -⟩ := attempt_withIndexes (t := t.withIndexes l) hl.symm hother
      exact nomatch hcall.symm.trans hm

theorem Sound.wide (h : t.Sound) (hl : l.Perm t.indexes) : (t.withIndexes l).Wide := by
  constructor
  · intro e he
    obtain ⟨c, hc, -⟩ := h.column_of_mem (hl.mem_iff.1 he)
    exact (List.getElem?_eq_some_iff.1 hc).1
  · intro key row hrow
    exact Schema.length_of_types (h.typed hrow)

/-- The tables of a schema as they are formed: a new one or one made of rows, those after a
call that was carried out in place, and those with the indexes in another order. -/
inductive Formed (s : Schema) : Table → Prop
  | create {t : Table} (h : create s = .ok t) : Formed s t
  | ofRows {rows : List Row} {t : Table} (h : ofRows s rows = .ok t) : Formed s t
  | call {t : Table} (h : Formed s t) (c : Call) : Formed s ((perform c).run.run t).2
  | shuffle {t : Table} {l : List (Nat × Index)} (h : Formed s t) (hl : l.Perm t.indexes) :
    Formed s (t.withIndexes l)

/-- Apart from the order of its indexes, a table that was formed is reachable. -/
theorem Formed.reachable (h : Formed s u) :
    ∃ t l, Reachable s t ∧ l.Perm t.indexes ∧ u = t.withIndexes l := by
  induction h with
  | create h => exact ⟨_, _, .create h, .refl _, rfl⟩
  | ofRows h => exact ⟨_, _, .ofRows h, .refl _, rfl⟩
  | call _ c ih =>
    obtain ⟨t, l, ht, hl, rfl⟩ := ih
    obtain ⟨m, hm, hperm⟩ := after_withIndexes hl c
    refine ⟨t.after c, m, ht.call c, hperm, ?_⟩
    rw [(ht.sound.wide hl).run_perform]
    exact hm
  | shuffle _ hl' ih =>
    obtain ⟨t, l, ht, hl, rfl⟩ := ih
    exact ⟨t, _, ht, hl'.trans hl, rfl⟩

theorem Formed.wide (h : Formed s t) : t.Wide := by
  obtain ⟨t, l, ht, hl, rfl⟩ := h.reachable
  exact ht.sound.wide hl

end Table
end RelStore
