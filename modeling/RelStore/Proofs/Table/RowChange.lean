import RelStore.Proofs.Table.Rebuild

/-! Changes of one row that are tried for many rows in turn. A change that was made or
refused for a row stays so: tried again, also after other rows were changed, it does
nothing. So a series of changes that was broken off can be taken up from its beginning. -/
namespace RelStore
namespace Schema
variable {s : Schema} {e : Error}

theorem errorClass_of_checkTypes {cs : List Column} {row : Row}
    (h : checkTypes cs row = .error e) : e.errorClass ≠ .fault := by
  induction cs generalizing row with
  | nil => simp [checkTypes] at h
  | cons c cs ih =>
    cases row with
    | nil => simp [checkTypes] at h
    | cons v vs =>
      rw [checkTypes] at h
      rcases bind_eq_error_iff.1 h with h | ⟨-, -, h⟩
      · obtain ⟨-, rfl⟩ := ensure_eq_error_iff.1 h
        intro hclass
        cases hclass
      · exact ih h

theorem errorClass_of_checkRow {row : Row} (h : s.checkRow row = .error e) :
    e.errorClass ≠ .fault := by
  rcases bind_eq_error_iff.1 h with h | ⟨-, -, h⟩
  · obtain ⟨-, rfl⟩ := ensure_eq_error_iff.1 h
    intro hclass
    cases hclass
  · exact errorClass_of_checkTypes h

end Schema

namespace Table
variable {t u : Table} {key : Value} {f : Row → Except Error Row} {e : Error}

theorem after_of_ok {c : Call} (h : t.attempt c = .ok u) : t.after c = u := by
  rw [after, h]

theorem after_of_error {c : Call} (h : t.attempt c = .error e) : t.after c = t := by
  rw [after, h]

theorem row?_of_insert {row : Row} (h : t.insert row = .ok u) :
    ∃ key, row[t.keyPosition]? = some key ∧ t.row? key = none ∧
      ∀ k, u.row? k = if key = k then some row else t.row? k := by
  obtain ⟨-, key, indexes, hkey, hnone, -, -, rfl⟩ := insert_eq_ok_iff.1 h
  exact ⟨key, hkey, hnone, fun k => t.rows.get?_insert key k row⟩

/-- The rows after an edit: the one under the key is new, the others are as before. -/
theorem row?_of_edit (h : t.edit key f = .ok u) :
    ∃ old new, t.row? key = some old ∧ f old = .ok new ∧
      ∀ k, u.row? k = if key = k then some new else t.row? k := by
  obtain ⟨old, new, k, indexes, hold, hnew, -, -, -, -, -, rfl⟩ := edit_eq_ok_iff.1 h
  exact ⟨old, new, hold, hnew, fun k => t.rows.get?_insert key k new⟩

structure Fits (t : Table) (key : Value) (new : Row) : Prop where
  typed : new.map Value.type = t.schema.columns.map Column.type
  keyed : new[t.keyPosition]? = some key
  free : ∀ {i : Nat} {c : Column}, t.schema.columns[i]? = some c → c.isIndexed = true →
    ∀ {k r}, t.row? k = some r → k ≠ key → r[i]? ≠ new[i]?

theorem Sound.fits_of_edit (h : t.Sound) (hu : t.edit key f = .ok u) :
    ∃ old new, t.row? key = some old ∧ f old = .ok new ∧ Fits t key new := by
  obtain ⟨old, new, k, indexes, hold, hnew, htyped, hk, hk', hfree, -, -⟩ := edit_eq_ok_iff.1 hu
  have hkey : k = key := Option.some.inj (hk'.symm.trans (h.keyed hold))
  subst hkey
  refine ⟨old, new, hold, hnew, htyped, hk, ?_⟩
  intro i c hc hi k' r hr hne hcell
  by_cases hp : i = t.keyPosition
  · rw [hp, h.keyed hr, hk] at hcell
    exact hne (Option.some.inj hcell)
  · obtain ⟨ix, hix, -⟩ := h.index?_exists hc hi
    obtain ⟨v, w, hv, hw, hvw⟩ := hfree _ (mem_of_index? hix) hp
    have hother : ix.key? v = some k' := (h.key?_eq_some_iff hix).2 ⟨r, hr, hcell.trans hv⟩
    rcases hvw with rfl | hnone | hown
    · exact hne (h.key_unique hc hi hr hold (hcell.trans hv) hw)
    · rw [hnone] at hother
      cases hother
    · rw [hown] at hother
      exact hne (Option.some.inj hother).symm

theorem Sound.turn_replacing (h : t.Sound) {old new : Row} (hold : t.row? key = some old)
    (hnew : new.map Value.type = t.schema.columns.map Column.type) :
    ∃ indexes, turn (replacing old new key t.keyPosition) t.indexes = .ok indexes :=
  turn_replacing_exists key t.keyPosition (fun _ he => h.cell_of_mem he (h.typed hold))
    fun _ he => h.cell_of_mem he hnew

theorem Sound.edit_of_fits (h : t.Sound) {old new : Row} (hold : t.row? key = some old)
    (hnew : f old = .ok new) (hfits : Fits t key new) : ∃ u, t.edit key f = .ok u := by
  obtain ⟨indexes, hindexes⟩ := h.turn_replacing hold hfits.typed
  refine ⟨_, edit_eq_ok_iff.2 ⟨old, new, key, indexes, hold, hnew, hfits.typed, hfits.keyed,
    h.keyed hold, fun e he _ => ?_, hindexes, rfl⟩⟩
  obtain ⟨v, hv⟩ := h.cell_of_mem he hfits.typed
  obtain ⟨w, hw⟩ := h.cell_of_mem he (h.typed hold)
  obtain ⟨c, hc, hi, -⟩ := h.column_of_mem he
  refine ⟨v, w, hv, hw, .inr ?_⟩
  cases hk : e.2.key? v with
  | none => exact .inl rfl
  | some k =>
    obtain ⟨r, hr, hrv⟩ := (h.answers e he v k).1 hk
    by_cases hkk : k = key
    · exact .inr (congrArg some hkk)
    · exact absurd (hrv.trans hv.symm) (hfits.free hc hi hr hkk)

theorem Sound.edit_self (h : t.Sound) (hu : t.edit key f = .ok u) {old : Row}
    (hold : t.row? key = some old) (hself : f old = .ok old) : u = t := by
  obtain ⟨old', new, hold', hnew, hrows⟩ := row?_of_edit hu
  obtain rfl : old = old' := Option.some.inj (hold.symm.trans hold')
  obtain rfl : old = new := Except.ok.inj (hself.symm.trans hnew)
  refine (h.edit hu).ext_row? h (edit_schema hu) fun k => ?_
  rw [hrows]
  split
  · rename_i hkk
    rw [← hkk, hold]
  · rfl

theorem errorClass_of_checkReplace {old new : Row} {keyPosition : Nat} {l : List (Nat × Index)}
    (hcells : ∀ e ∈ l, (∃ v, new[e.1]? = some v) ∧ ∃ w, old[e.1]? = some w)
    (h : checkReplace old new key keyPosition l = .error e) : e.errorClass ≠ .fault := by
  induction l with
  | nil => simp [checkReplace] at h
  | cons d rest ih =>
    obtain ⟨i, ix⟩ := d
    obtain ⟨⟨v, hv⟩, w, hw⟩ := hcells (i, ix) List.mem_cons_self
    have hrest := fun d hd => hcells d (List.mem_cons_of_mem _ hd)
    rw [checkReplace, Row.cell_eq_ok_iff.2 hv, Row.cell_eq_ok_iff.2 hw, ok_bind, ok_bind] at h
    split at h
    · exact ih hrest h
    · rcases bind_eq_error_iff.1 h with h | ⟨-, -, h⟩
      · obtain ⟨-, rfl⟩ := ensure_eq_error_iff.1 h
        intro hclass
        cases hclass
      · exact ih hrest h

/-- An edit of a sound table is refused for a reason, unless the function that makes the
new row reads beyond the old one. -/
theorem Sound.errorClass_of_edit (h : t.Sound)
    (hf : ∀ {old e}, t.row? key = some old → f old = .error e → e.errorClass ≠ .fault)
    (he : t.edit key f = .error e) : e.errorClass ≠ .fault := by
  unfold Table.edit at he
  cases hold : t.rows.get? key with
  | none =>
    rw [hold] at he
    cases he
    nofun
  | some old =>
    rw [hold] at he
    have hwidth : ∀ {row : Row}, row.map Value.type = t.schema.columns.map Column.type →
        ∃ v, row[t.keyPosition]? = some v := by
      intro row hrow
      have hlength : row.length = old.length := by
        have hl := congrArg List.length (hrow.trans (h.typed hold).symm)
        simpa using hl
      have hlt : t.keyPosition < row.length :=
        hlength ▸ (List.getElem?_eq_some_iff.1 (h.keyed hold)).1
      exact ⟨row[t.keyPosition], List.getElem?_eq_getElem hlt⟩
    rcases bind_eq_error_iff.1 he with he | ⟨new, hnew, he⟩
    · exact hf hold he
    rcases bind_eq_error_iff.1 he with he | ⟨⟨⟩, htyped, he⟩
    · exact Schema.errorClass_of_checkRow he
    have htyped := Schema.checkRow_eq_ok_iff.1 htyped
    obtain ⟨v, hv⟩ := hwidth htyped
    obtain ⟨w, hw⟩ := hwidth (h.typed hold)
    rw [Row.cell_eq_ok_iff.2 hv, Row.cell_eq_ok_iff.2 hw, ok_bind, ok_bind] at he
    rcases bind_eq_error_iff.1 he with he | ⟨-, -, he⟩
    · obtain ⟨-, rfl⟩ := ensure_eq_error_iff.1 he
      intro hclass
      cases hclass
    rcases bind_eq_error_iff.1 he with he | ⟨-, -, he⟩
    · exact errorClass_of_checkReplace
        (fun e he => ⟨h.cell_of_mem he htyped, h.cell_of_mem he (h.typed hold)⟩) he
    · obtain ⟨indexes, hindexes⟩ := h.turn_replacing hold htyped
      rw [reenter_eq_turn, hindexes] at he
      cases he

theorem attempt_erase_eq_ok_iff :
    t.attempt (.erase key) = .ok u ↔ ∃ row, t.erase key = .ok (row, u) := by
  show (t.erase key).map (·.2) = .ok u ↔ _
  cases t.erase key with
  | error e => simp [Except.map]
  | ok r =>
    obtain ⟨row, v⟩ := r
    simp [Except.map]

theorem row?_of_erase (h : t.attempt (.erase key) = .ok u) :
    ∀ k, u.row? k = if key = k then none else t.row? k := by
  obtain ⟨row, hrow⟩ := attempt_erase_eq_ok_iff.1 h
  obtain ⟨-, indexes, -, rfl⟩ := erase_eq_ok_iff.1 hrow
  exact fun k => t.rows.get?_erase key k

theorem Sound.erase_exists (h : t.Sound) {row : Row} (hrow : t.row? key = some row) :
    ∃ u, t.attempt (.erase key) = .ok u := by
  obtain ⟨indexes, hindexes⟩ := turn_leaving_exists fun e he => h.cell_of_mem he (h.typed hrow)
  exact ⟨_, attempt_erase_eq_ok_iff.2 ⟨row, erase_eq_ok_iff.2 ⟨hrow, indexes, hindexes, rfl⟩⟩⟩

theorem attempt_erase_of_none (h : t.row? key = none) :
    t.attempt (.erase key) = .error (.noRow key t.name) := by
  have hrow : t.rows.get? key = none := h
  show (t.erase key).map (·.2) = _
  rw [erase, hrow]
  rfl

theorem edit_of_none {f : Row → Except Error Row} (h : t.row? key = none) :
    t.edit key f = .error (.noRow key t.name) := by
  have hrow : t.rows.get? key = none := h
  rw [edit, hrow]
  rfl

/-- A change that is tried for a row of a table of some schema: it concerns that row alone,
is refused only for a reason, does nothing a second time, and, where it does nothing, does
nothing either after another row was changed. -/
structure RowChange (s : Schema) (call : Value → Call) : Prop where
  frame : ∀ {t u : Table} {key k : Value}, t.attempt (call key) = .ok u → k ≠ key → u.row? k = t.row? k
  refused : ∀ {t : Table} {key : Value} {e : Error}, t.Sound → t.schema = s → t.attempt (call key) = .error e →
    e.errorClass ≠ .fault
  again : ∀ {t : Table} {key : Value}, t.Sound → t.schema = s →
    (t.after (call key)).after (call key) = t.after (call key)
  stays : ∀ {t : Table} {key : Value}, t.Sound → t.schema = s → t.after (call key) = t → ∀ key',
    (t.after (call key')).after (call key) = t.after (call key')

/-- A row that is gone stays gone. -/
theorem rowChange_erase (s : Schema) : RowChange s .erase := by
  have hgone : ∀ {t : Table} {key}, t.Sound → t.after (.erase key) = t → t.row? key = none := by
    intro t key ht hself
    cases hrow : t.row? key with
    | none => rfl
    | some row =>
      obtain ⟨u, hu⟩ := ht.erase_exists hrow
      have hut : u = t := (after_of_ok hu).symm.trans hself
      have hnone := row?_of_erase hu key
      rw [if_pos rfl, hut, hrow] at hnone
      cases hnone
  have hnothing : ∀ {t : Table} {key}, t.row? key = none → t.after (.erase key) = t :=
    fun hnone => after_of_error (attempt_erase_of_none hnone)
  refine ⟨?_, ?_, ?_, ?_⟩
  · intro t u key k hu hk
    rw [row?_of_erase hu, if_neg fun h => hk h.symm]
  · intro t key e ht _ he
    cases hrow : t.row? key with
    | none =>
      rw [attempt_erase_of_none hrow] at he
      cases he
      nofun
    | some row =>
      obtain ⟨u, hu⟩ := ht.erase_exists hrow
      rw [hu] at he
      cases he
  · intro t key ht _
    cases hu : t.attempt (.erase key) with
    | error e => rw [after_of_error hu, after_of_error hu]
    | ok u =>
      rw [after_of_ok hu]
      exact hnothing (by rw [row?_of_erase hu, if_pos rfl])
  · intro t key ht _ hself key'
    have hnone := hgone ht hself
    cases hv : t.attempt (.erase key') with
    | error e => rw [after_of_error hv, hself]
    | ok v =>
      rw [after_of_ok hv]
      refine hnothing ?_
      rw [row?_of_erase hv, hnone]
      split <;> rfl

def swept (call : Value → Call) (t : Table) (keys : List Value) : Table :=
  keys.foldl (fun t key => t.after (call key)) t

variable {s : Schema} {call : Value → Call} {keys : List Value}

@[simp] theorem swept_nil : swept call t [] = t := rfl

@[simp] theorem swept_cons {rest : List Value} :
    swept call t (key :: rest) = swept call (t.after (call key)) rest := rfl

theorem swept_append {more : List Value} :
    swept call t (keys ++ more) = swept call (swept call t keys) more := List.foldl_append

theorem Sound.swept (h : t.Sound) : (swept call t keys).Sound := by
  induction keys generalizing t with
  | nil => exact h
  | cons key rest ih => exact ih (h.after (call key))

theorem schema_swept : (swept call t keys).schema = t.schema := by
  induction keys generalizing t with
  | nil => rfl
  | cons key rest ih => exact ih.trans (t.after_schema (call key))

theorem swept_self (h : ∀ key ∈ keys, t.after (call key) = t) : swept call t keys = t := by
  induction keys with
  | nil => rfl
  | cons key rest ih =>
    rw [swept_cons, h key List.mem_cons_self]
    exact ih fun k hk => h k (List.mem_cons_of_mem _ hk)

theorem RowChange.row?_after (hc : RowChange s call) {k : Value} (hk : k ≠ key) :
    (t.after (call key)).row? k = t.row? k := by
  cases hu : t.attempt (call key) with
  | error e => rw [after_of_error hu]
  | ok u =>
    rw [after_of_ok hu]
    exact hc.frame hu hk

theorem RowChange.row?_swept (hc : RowChange s call) {k : Value} (hk : k ∉ keys) :
    (Table.swept call t keys).row? k = t.row? k := by
  induction keys generalizing t with
  | nil => rfl
  | cons key rest ih =>
    obtain ⟨hkey, hrest⟩ := not_or.1 (mt List.mem_cons.2 hk)
    exact (ih hrest).trans (hc.row?_after hkey)

theorem RowChange.keyOf?_swept (hc : RowChange s call) (h : t.Sound) {k : Value}
    (hk : k ∉ keys) (column : String) (v : Value) :
    (Table.swept call t keys).keyOf? column v = some k ↔ t.keyOf? column v = some k :=
  h.keyOf?_congr h.swept schema_swept (hc.row?_swept hk) column v

theorem RowChange.stays_swept (hc : RowChange s call) (h : t.Sound) (hs : t.schema = s)
    (hself : t.after (call key) = t) :
    (Table.swept call t keys).after (call key) = Table.swept call t keys := by
  induction keys generalizing t with
  | nil => exact hself
  | cons k rest ih =>
    exact ih (h.after _) ((t.after_schema _).trans hs) (hc.stays h hs hself k)

/-- A change that was tried for a row has nothing left to do for it. -/
theorem RowChange.settled (hc : RowChange s call) (h : t.Sound) (hs : t.schema = s)
    (hk : key ∈ keys) :
    (Table.swept call t keys).after (call key) = Table.swept call t keys := by
  induction keys generalizing t with
  | nil => cases hk
  | cons k rest ih =>
    have hnext : (t.after (call k)).Sound := h.after _
    have hschema : (t.after (call k)).schema = s := (t.after_schema _).trans hs
    rw [swept_cons]
    rcases List.mem_cons.1 hk with rfl | hk
    · exact hc.stays_swept hnext hschema (hc.again h hs)
    · exact ih hnext hschema hk

end Table
end RelStore
