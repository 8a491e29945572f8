import RelStore.Proofs.Database.Resumed

/-! Updates and deletions that nothing stops. Either the one row of a key is refused, and then
nothing is saved, or the table after its changes is kept in memory and saved. -/
namespace RelStore

theorem Signal.atPolls_never : Signal.atPolls (fun _ => false) = .never := rfl

namespace Database
open Table (Call matching swept accepted)

variable {α : Type} {name : String} {db db' db₁ : Database} {t u : Table} {c : Condition}
  {call : Value → Call} {assignments : List (String × Value)} {changes : List (Nat × Value)}

/-- The tables in memory are as they were but for the one of a name. -/
structure Remembers (name : String) (u : Table) (db db' : Database) : Prop where
  settings : db'.settings = db.settings
  memory : ∀ n, db'.loaded.lookup n = if n = name then some u else db.loaded.lookup n

theorem Remembers.lookup (h : Remembers name u db db') : db'.loaded.lookup name = some u := by
  rw [h.memory, if_pos rfl]

theorem Remembers.found (h : Remembers name u db db') : db'.found name = .ok u :=
  found_of_lookup h.lookup

theorem Remembers.keep (h : Remembers name t db db₁) (u : Table) (disk : Disk) (trace : Trace) :
    Remembers name u db { db₁ with loaded := putTable name u db₁.loaded, disk, trace } := by
  refine ⟨h.settings, fun n => ?_⟩
  rw [lookup_putTable, h.memory]
  split <;> rfl

theorem remembers_table (hfound : db.found name = .ok t) (trace : Trace) :
    ∃ db₁, (table name).run.run { db with trace } = (.ok t, db₁) ∧ Remembers name t db db₁ ∧
      db₁.disk = db.disk := by
  have htrace : Untouched db { db with trace } := .with_trace trace
  obtain ⟨db₁, hrun, huntouched, hloaded, hothers, -⟩ := run_table_found name { db with trace }
  have hfound' := (htrace.found name).trans hfound
  refine ⟨db₁, hfound' ▸ hrun, ⟨huntouched.settings, fun n => ?_⟩, huntouched.disk⟩
  split
  · rename_i hn
    rw [hn]
    exact hloaded t hfound'
  · rename_i hn
    exact hothers n hn

/-- A table was kept in memory and saved, and there was an answer unless the save failed. -/
structure Commits (name : String) (u : Table) (a : α) (db : Database)
    (r : Except Error α × Database) : Prop where
  remembers : Remembers name u db r.2
  answer : r.1 = if (db.disk.save (tableFile u.name) (Document.ofTable u).encode).1 then .ok a
    else .error .io
  disk : r.2.disk = (db.disk.save (tableFile u.name) (Document.ofTable u).encode).2

theorem commits_save (h : Remembers name u db db₁) (hdisk : db₁.disk = db.disk) (a : α) :
    Commits name u a db ((do
      save u
      pure a : Action α).run.run db₁) := by
  rcases hsave : db.disk.save (tableFile u.name) (Document.ofTable u).encode with ⟨done, disk⟩
  rw [run_bind, run_save, hdisk, hsave]
  cases done with
  | true => exact ⟨⟨h.settings, h.memory⟩, by rw [hsave]; rfl, by rw [hsave]; rfl⟩
  | false => exact ⟨⟨h.settings, h.memory⟩, by rw [hsave]; rfl, by rw [hsave]⟩

theorem commits_keep_save (h : Remembers name t db db₁) (hdisk : db₁.disk = db.disk) (a : α) :
    Commits name u a db ((do
      keep name u
      save u
      pure a : Action α).run.run db₁) := by
  rw [run_bind, run_keep]
  exact commits_save (h.keep u db₁.disk db₁.trace) hdisk a

theorem Commits.map {β : Type} {x : Action α} {a : α} (h : Commits name u a db (x.run.run db₁))
    (f : α → β) : Commits name u (f a) db ((do
      let a ← x
      pure (f a) : Action β).run.run db₁) := by
  obtain ⟨hremembers, hanswer, hdisk⟩ := h
  rw [run_bind]
  rcases hx : x.run.run db₁ with ⟨r, db₂⟩
  rw [hx] at hremembers hanswer hdisk
  obtain rfl : r = _ := hanswer
  cases hdone : (db.disk.save (tableFile u.name) (Document.ofTable u).encode).1 with
  | true => exact ⟨hremembers, by rw [hdone]; rfl, hdisk⟩
  | false => exact ⟨hremembers, by rw [hdone]; rfl, hdisk⟩

def targets (t : Table) (c : Condition) : List Value :=
  match keyEquation? t c with
  | some key => [key]
  | none => matching c t

def Refuses (t : Table) (c : Condition) (call : Value → Call) (e : Error) : Prop :=
  ∃ key, keyEquation? t c = some key ∧ t.attempt (call key) = .error e ∧
    e.errorClass ≠ .rowNotFound

def changing (signal : Signal) (change : Change) (name : String) (t : Table) (c : Condition)
    (call : Value → Call) : Action Nat :=
  match keyEquation? t c with
  | some key => changeRow name t (t.attempt (call key))
  | none => changeRows signal change name t c fun t key => t.attempt (call key)

theorem update_eq (signal : Signal) : update name assignments c signal = (do
    let t ← table name
    let changes ← (resolveAssignments t assignments : Except Error (List (Nat × Value)))
    let n ← changing signal .update name t c fun key => .edit key (assign changes)
    pure (.updated n)) := by
  refine bind_congr fun t => bind_congr fun changes => ?_
  unfold changing
  cases keyEquation? t c <;> rfl

theorem delete_eq (signal : Signal) : delete name c signal = (do
    let t ← table name
    let n ← changing signal .delete name t c .erase
    pure (.deleted n)) := by
  refine bind_congr fun t => ?_
  unfold changing
  cases keyEquation? t c <;> rfl

theorem run_changeRow_refused {e : Error} (hclass : e.errorClass ≠ .rowNotFound) :
    (changeRow name t (.error e)).run.run db = (.error e, db) := by
  have hthrow : changeRow name t (.error e) = (throw e : Action Nat) := if_neg hclass
  rw [hthrow, run_throw]

theorem commits_changeRow (h : Remembers name t db db₁) (hdisk : db₁.disk = db.disk) {k : Call}
    (hk : ∀ e, t.attempt k = .error e → e.errorClass = .rowNotFound) :
    Commits name (t.after k) (if (t.attempt k).isOk then 1 else 0) db
      ((changeRow name t (t.attempt k)).run.run db₁) := by
  cases ha : t.attempt k with
  | ok u =>
    rw [Table.after_of_ok ha]
    exact commits_keep_save h hdisk 1
  | error e =>
    have hsave : changeRow name t (.error e) = (do
        save t
        pure 0 : Action Nat) := if_pos (hk e ha)
    rw [Table.after_of_error ha, hsave]
    exact commits_save h hdisk 0

/-- A change of the rows that satisfy a condition. -/
theorem commits_changeRows (hc : Table.RowChange t.schema call) (ht : t.Sound)
    (h : Remembers name t db db₁) (hdisk : db₁.disk = db.disk) (change : Change) :
    Commits name (swept call t (matching c t)) (accepted call t (matching c t)).length db
      ((changeRows .never change name t c fun t key => t.attempt (call key)).run.run db₁) := by
  obtain ⟨v, hkeys, -⟩ := run_matching_until t c (Until.never (a := db₁.trace.polls))
  rw [Until.answer_self] at hkeys
  let p : Progress := ⟨t, 0, v⟩
  obtain ⟨q, hsweep, htable, hcount, -⟩ :=
    sweep_until (p := p) hc change ht rfl (Until.never (a := v.polls))
  rw [Until.answer_self] at hsweep
  rw [List.take_length] at htable hcount
  have hcount : q.count = (accepted call t (matching c t)).length := hcount.trans (Nat.zero_add _)
  have htraced : Remembers name t db { db₁ with trace := q.trace } := ⟨h.settings, h.memory⟩
  rw [← htable, ← hcount]
  have hrun : (changeRows .never change name t c fun t key => t.attempt (call key)).run.run db₁ =
      (settle name (.ok ()) q.table q.count).run.run { db₁ with trace := q.trace } := by
    rw [changeRows_eq, ← Signal.atPolls_never, run_bind, run_watch, hkeys]
    simp only [run_bind, run_get, hsweep, run_modify, p]
  rw [hrun]
  exact commits_keep_save htraced hdisk q.count

theorem run_changing_refused {e : Error} (h : Refuses t c call e) (signal : Signal)
    (change : Change) :
    (changing signal change name t c call).run.run db = (.error e, db) := by
  obtain ⟨key, hkey, he, hclass⟩ := h
  rw [changing, hkey]
  simp only [he]
  exact run_changeRow_refused hclass

/-- Unless the row of a key is refused, the table after the changes is kept and saved. -/
theorem commits_changing (hc : Table.RowChange t.schema call) (ht : t.Sound)
    (h : Remembers name t db db₁) (hdisk : db₁.disk = db.disk) (change : Change)
    (hnot : ∀ e, ¬ Refuses t c call e) :
    Commits name (swept call t (targets t c)) (accepted call t (targets t c)).length db
      ((changing .never change name t c call).run.run db₁) := by
  unfold changing targets
  cases hkey : keyEquation? t c with
  | none => exact commits_changeRows hc ht h hdisk change
  | some key =>
    have hone : (accepted call t [key]).length = if (t.attempt (call key)).isOk then 1 else 0 := by
      rw [accepted]
      split <;> rfl
    rw [hone]
    refine commits_changeRow h hdisk fun e he => ?_
    by_contra hclass
    exact hnot e ⟨key, hkey, he, hclass⟩

abbrev editing (changes : List (Nat × Value)) (key : Value) : Call := .edit key (assign changes)

theorem rowChange_editing (ha : resolveAssignments t assignments = .ok changes) :
    Table.RowChange t.schema (editing changes) := rowChange_assign (resolveAssignments_lt ha)

theorem run_poll_never (db : Database) :
    (poll .never).run.run db = (.ok (), { db with trace := .poll :: db.trace }) := by
  rw [poll, run_watch]
  rfl

theorem not_refuses_erase (ht : t.Sound) (c : Condition) (e : Error) : ¬ Refuses t c .erase e := by
  rintro ⟨key, -, he, hclass⟩
  refine hclass ?_
  cases hrow : t.row? key with
  | none =>
    rw [Table.attempt_erase_of_none hrow] at he
    cases he
    rfl
  | some row =>
    obtain ⟨u, hu⟩ := ht.erase_exists hrow
    cases hu.symm.trans he

theorem commits_delete (ht : t.Sound) (hfound : db.found name = .ok t) (c : Condition) :
    Commits name (swept .erase t (targets t c))
      (.deleted (accepted .erase t (targets t c)).length) db
      ((run (.delete name c) .never).run.run db) := by
  obtain ⟨db₁, htable, hremembers, hdisk⟩ := remembers_table hfound (.poll :: db.trace)
  have hrun : (run (.delete name c) .never).run.run db = (do
      let n ← changing .never .delete name t c .erase
      pure (.deleted n) : Action Outcome).run.run db₁ := by
    show (poll .never >>= fun _ => delete name c .never : Action Outcome).run.run db = _
    rw [run_bind, run_poll_never, delete_eq]
    simp only [run_bind, htable]
  rw [hrun]
  have hcommits := commits_changing (Table.rowChange_erase t.schema) ht hremembers hdisk .delete
    (not_refuses_erase ht c)
  exact hcommits.map Outcome.deleted

/-- There was an error, and nothing has changed but that a table is kept in memory. -/
structure Declines (name : String) (t : Table) (e : Error) (db : Database)
    (r : Except Error α × Database) : Prop where
  answer : r.1 = .error e
  remembers : Remembers name t db r.2
  disk : r.2.disk = db.disk

theorem run_update (hfound : db.found name = .ok t) (assignments : List (String × Value))
    (c : Condition) :
    ∃ db₁, Remembers name t db db₁ ∧ db₁.disk = db.disk ∧
      (run (.update name assignments c) .never).run.run db = (do
        let changes ← (resolveAssignments t assignments : Except Error (List (Nat × Value)))
        let n ← changing .never .update name t c (editing changes)
        pure (.updated n) : Action Outcome).run.run db₁ := by
  obtain ⟨db₁, htable, hremembers, hdisk⟩ := remembers_table hfound (.poll :: db.trace)
  refine ⟨db₁, hremembers, hdisk, ?_⟩
  show (poll .never >>= fun _ => update name assignments c .never : Action Outcome).run.run db = _
  rw [run_bind, run_poll_never, update_eq]
  simp only [run_bind, htable]

theorem declines_unresolved (hfound : db.found name = .ok t) {e : Error}
    (ha : resolveAssignments t assignments = .error e) (c : Condition) :
    Declines name t e db ((run (.update name assignments c) .never).run.run db) := by
  obtain ⟨db₁, hremembers, hdisk, hrun⟩ := run_update hfound assignments c
  rw [hrun, ha, run_bind, run_lift]
  exact ⟨rfl, hremembers, hdisk⟩

theorem declines_refused (hfound : db.found name = .ok t) {e : Error}
    (ha : resolveAssignments t assignments = .ok changes)
    (hrefuses : Refuses t c (editing changes) e) :
    Declines name t e db ((run (.update name assignments c) .never).run.run db) := by
  obtain ⟨db₁, hremembers, hdisk, hrun⟩ := run_update hfound assignments c
  rw [hrun, ha, run_bind, run_lift]
  simp only [run_bind, run_changing_refused hrefuses]
  exact ⟨rfl, hremembers, hdisk⟩

/-- Any other update keeps and saves the table with the rows edited. -/
theorem commits_update (ht : t.Sound) (hfound : db.found name = .ok t)
    (ha : resolveAssignments t assignments = .ok changes)
    (hnot : ∀ e, ¬ Refuses t c (editing changes) e) :
    Commits name (swept (editing changes) t (targets t c))
      (.updated (accepted (editing changes) t (targets t c)).length) db
      ((run (.update name assignments c) .never).run.run db) := by
  obtain ⟨db₁, hremembers, hdisk, hrun⟩ := run_update hfound assignments c
  rw [hrun, ha, run_bind, run_lift]
  have hcommits := commits_changing (rowChange_editing ha) ht hremembers hdisk .update hnot
  exact hcommits.map Outcome.updated

end Database
end RelStore
