import RelStore.Proofs.Database.Undisturbed
import RelStore.Proofs.Disk.Atomic
import RelStore.Proofs.Table.Made

/-! Updates and deletions of the row of one key, which find it by its key or go through all rows.
Both ways leave the same tables and files; only an update that is refused is answered in two
ways. -/
namespace RelStore

@[simp] theorem Condition.holds_and_self (h : Heading) (row : Row) (c : Condition) :
    (Condition.and c c).holds h row = c.holds h row := Bool.and_self _

namespace Database
open Table (Call matching swept accepted)

variable {α : Type} {name : String} {db : Database} {t u : Table} {c : Condition} {key : Value}
  {call : Value → Call} {assignments : List (String × Value)} {changes : List (Nat × Value)}

theorem matching_and_self (c : Condition) (t : Table) : matching (.and c c) t = matching c t := by
  simp only [matching, Condition.holds_and_self]

theorem targets_and_self (c : Condition) (t : Table) : targets t (.and c c) = matching c t := by
  rw [← matching_and_self]
  rfl

theorem not_refuses_and_self (c : Condition) (call : Value → Call) (e : Error) :
    ¬ Refuses t (.and c c) call e := by
  rintro ⟨key, ⟨⟩, -⟩

theorem keyEquation?_eq_some_iff : keyEquation? t c = some key ↔ ∃ column,
    c = .equals column key ∧
      Heading.resolve? (.ofSchema t.schema) column = some t.keyPosition := by
  simp only [keyEquation?, Option.bind_eq_bind, Option.bind_eq_some_iff, Prod.exists,
    Condition.equation?_eq_some_iff]
  constructor
  · rintro ⟨column, v, rfl, i, hi, hkey⟩
    split at hkey
    · rename_i hposition
      cases hkey
      exact ⟨column, rfl, hposition ▸ hi⟩
    · cases hkey
  · rintro ⟨column, rfl, hcolumn⟩
    exact ⟨column, key, rfl, t.keyPosition, hcolumn, if_pos rfl⟩

theorem matching_of_keyEquation? (ht : t.Sound) (h : keyEquation? t c = some key) :
    matching c t = if (t.row? key).isSome then [key] else [] := by
  obtain ⟨column, rfl, hcolumn⟩ := keyEquation?_eq_some_iff.1 h
  have hholds : ∀ {k row}, t.row? k = some row →
      ((Condition.equals column key).holds (.ofSchema t.schema) row = true ↔ k = key) := by
    intro k row hrow
    simp only [Condition.holds, hcolumn, ht.keyed hrow, Value.sqlEq_iff]
  have hrising : (if (t.row? key).isSome then [key] else []).Pairwise (· < ·) := by
    split
    · exact List.pairwise_singleton _ _
    · exact .nil
  refine List.Pairwise.eq_of_mem_iff (Table.rising_matching _ t) hrising fun k => ?_
  rw [Table.mem_matching]
  constructor
  · rintro ⟨row, hrow, hk⟩
    obtain rfl := (hholds hrow).1 hk
    simp [hrow]
  · intro hk
    split at hk
    · rename_i hsome
      obtain rfl := List.mem_singleton.1 hk
      obtain ⟨row, hrow⟩ := Option.isSome_iff_exists.1 hsome
      exact ⟨row, hrow, (hholds hrow).2 rfl⟩
    · cases hk

theorem swept_targets (ht : t.Sound)
    (hnone : ∀ key, t.row? key = none → ∃ e, t.attempt (call key) = .error e) :
    swept call t (targets t c) = swept call t (matching c t) ∧
      accepted call t (targets t c) = accepted call t (matching c t) := by
  unfold targets
  cases hkey : keyEquation? t c with
  | none => exact ⟨rfl, rfl⟩
  | some key =>
    rw [matching_of_keyEquation? ht hkey]
    cases hrow : t.row? key with
    | some row => exact ⟨rfl, rfl⟩
    | none =>
      obtain ⟨e, he⟩ := hnone key hrow
      exact ⟨Table.after_of_error he, Table.accepted_cons_of_error he⟩

theorem Commits.agree {a : α} {r r' : Except Error α × Database} (h : Commits name u a db r)
    (h' : Commits name u a db r') :
    r.1 = r'.1 ∧ (∀ n, r.2.loaded.lookup n = r'.2.loaded.lookup n) ∧ r.2.disk = r'.2.disk :=
  ⟨h.answer.trans h'.answer.symm,
    fun n => (h.remembers.memory n).trans (h'.remembers.memory n).symm,
    h.disk.trans h'.disk.symm⟩

/-- The same files, though the file of a table may have been written anew. -/
structure Rewrites (name : String) (db : Database) (d d' : Disk) : Prop where
  others : ∀ p, db.disk.place? [] (Disk.components (tableFile name)) ≠ some p →
    d'.node? p = d.node? p
  read : readTable db.settings d' name = readTable db.settings d name

theorem Rewrites.refl (name : String) (db : Database) (d : Disk) : Rewrites name db d d :=
  ⟨fun _ _ => rfl, rfl⟩

theorem rewrites_of_save (hin : InStep db t) {d' : Disk}
    (h : db.disk.save (tableFile t.name) (Document.ofTable t).encode = (true, d')) :
    Rewrites t.name db db.disk d' ∧
      (db.disk.find (tableFile t.name) = .node (.file (Document.ofTable t).encode) →
        ∀ p, d'.node? p = db.disk.node? p) := by
  obtain ⟨bytes, _, hold, -, -⟩ := readTable_eq_ok_iff.1 hin.readTable
  obtain ⟨hfind, q, hplace, hfile, hnode⟩ := Disk.node?_of_save hold h
  refine ⟨⟨fun p hp => ?_, ?_⟩, fun hwritten p => ?_⟩
  · rw [hnode, if_neg]
    rintro rfl
    exact hp (Disk.placeOf?_eq_some_iff.1 hplace).2
  · rw [hin.readTable, readTable_of_find hfind, Document.toTable_ofTable hin.sound hin.checked]
  · rw [hnode]
    split
    · rename_i hp
      cases hold.symm.trans hwritten
      rw [hp, hfile]
    · rfl

theorem commits_delete_matching (ht : t.Sound) (hfound : db.found name = .ok t) (c : Condition) :
    Commits name (swept .erase t (matching c t))
      (.deleted (accepted .erase t (matching c t)).length) db
      ((run (.delete name c) .never).run.run db) := by
  have hnone : ∀ key, t.row? key = none → ∃ e, t.attempt (.erase key) = .error e :=
    fun key hrow => ⟨_, Table.attempt_erase_of_none hrow⟩
  obtain ⟨hswept, haccepted⟩ := swept_targets (c := c) ht hnone
  have hcommits := commits_delete ht hfound c
  rw [hswept, haccepted] at hcommits
  exact hcommits

theorem delete_agrees (ht : t.Sound) (hfound : db.found name = .ok t) (c : Condition) :
    let r := (run (.delete name c) .never).run.run db
    let r' := (run (.delete name (.and c c)) .never).run.run db
    r.1 = r'.1 ∧ (∀ n, r.2.loaded.lookup n = r'.2.loaded.lookup n) ∧ r.2.disk = r'.2.disk := by
  intro r r'
  have hr := commits_delete_matching ht hfound c
  have hr' := commits_delete_matching ht hfound (.and c c)
  rw [matching_and_self] at hr'
  exact hr.agree hr'

/-- An update of the row of a key. -/
theorem update_agrees (hin : InStep db t)
    (hsaves : ∀ bytes, (db.disk.save (tableFile t.name) bytes).1 = true)
    (assignments : List (String × Value)) (c : Condition) :
    let r := (run (.update t.name assignments c) .never).run.run db
    let r' := (run (.update t.name assignments (.and c c)) .never).run.run db
    (∀ n, r.2.loaded.lookup n = r'.2.loaded.lookup n) ∧
      Rewrites t.name db r.2.disk r'.2.disk ∧
      (db.disk.find (tableFile t.name) = .node (.file (Document.ofTable t).encode) →
        ∀ p, r'.2.disk.node? p = r.2.disk.node? p) ∧
      (∀ changes e, resolveAssignments t assignments = .ok changes →
        Refuses t c (editing changes) e → r.1 = .error e ∧ r'.1 = .ok (.updated 0)) ∧
      ((∀ changes e, resolveAssignments t assignments = .ok changes →
        ¬ Refuses t c (editing changes) e) → r.1 = r'.1) := by
  intro r r'
  have ht := hin.sound
  cases ha : resolveAssignments t assignments with
  | error e =>
    have hr := declines_unresolved hin.found ha c
    have hr' := declines_unresolved hin.found ha (.and c c)
    have hsame : r'.2.disk = r.2.disk := hr'.disk.trans hr.disk.symm
    refine ⟨fun n => ?_, ?_, fun _ p => by rw [hsame], ?_, fun _ => ?_⟩
    · rw [hr.remembers.memory, hr'.remembers.memory]
    · rw [hsame]
      exact .refl _ _ _
    · rintro _ _ ⟨⟩
    · rw [hr.answer, hr'.answer]
  | ok changes =>
    have hnone : ∀ key, t.row? key = none → ∃ e, t.attempt (editing changes key) = .error e :=
      fun key hrow => ⟨_, Table.edit_of_none hrow⟩
    obtain ⟨hswept, haccepted⟩ := swept_targets (c := c) ht hnone
    have hr' := commits_update ht hin.found ha (not_refuses_and_self c (editing changes))
    rw [targets_and_self] at hr'
    by_cases hrefuses : ∃ e, Refuses t c (editing changes) e
    · -- the row of the key is refused, and the scan passes over it
      obtain ⟨e, hrefuses⟩ := hrefuses
      have hr := declines_refused hin.found ha hrefuses
      obtain ⟨key, hkey, he, -⟩ := id hrefuses
      rw [← hswept, ← haccepted, targets, hkey, Table.accepted_cons_of_error he, Table.swept_cons,
        Table.after_of_error he] at hr'
      obtain ⟨hrewrites, hwritten⟩ := rewrites_of_save hin (Prod.ext (hsaves _) rfl)
      refine ⟨fun n => ?_, ?_, ?_, ?_, fun hnot => absurd hrefuses (hnot changes e rfl)⟩
      · exact (hr.remembers.memory n).trans (hr'.remembers.memory n).symm
      · rw [hr.disk, hr'.disk]
        exact hrewrites
      · rw [hr.disk, hr'.disk]
        exact hwritten
      · rintro _ e' ⟨⟩ ⟨key', hkey', he', -⟩
        obtain rfl := Option.some.inj (hkey.symm.trans hkey')
        obtain rfl := Except.error.inj (he.symm.trans he')
        exact ⟨hr.answer, hr'.answer.trans (if_pos (hsaves _))⟩
    · have hr := commits_update ht hin.found ha (not_exists.1 hrefuses)
      rw [hswept, haccepted] at hr
      obtain ⟨hanswer, hmemory, hdisk⟩ := hr.agree hr'
      refine ⟨hmemory, ?_, fun _ p => by rw [hdisk], ?_, fun _ => hanswer⟩
      · rw [hdisk]
        exact .refl _ _ _
      · rintro _ e ⟨⟩ hrefuses'
        exact absurd ⟨e, hrefuses'⟩ hrefuses

/-- The row of a key is found at once by an equation between the key column, under any of its
names, and a value; by the same condition said twice it is found among all rows. Of a table whose
file holds what is in memory, a deletion answers and leaves the same both ways. An update leaves
the same tables and files, and what it answers at once it also answers after going through the
rows; but where the row is refused it fails at once, and otherwise has updated no row. In that
case the file of the table is written anew, which makes a difference only if it was not written
by a save, and none to the table that is read from it. -/
theorem key_path_agrees (hin : InStep db t)
    (hsaves : ∀ bytes, (db.disk.save (tableFile t.name) bytes).1 = true) {column : String}
    (hkey : Heading.resolve? (.ofSchema t.schema) column = some t.keyPosition) (v : Value)
    (assignments : List (String × Value)) :
    let fast := Condition.equals column v
    let scan := Condition.and fast fast
    let d := (run (.delete t.name fast) .never).run.run db
    let d' := (run (.delete t.name scan) .never).run.run db
    let r := (run (.update t.name assignments fast) .never).run.run db
    let r' := (run (.update t.name assignments scan) .never).run.run db
    (d.1 = d'.1 ∧ (∀ n, d.2.loaded.lookup n = d'.2.loaded.lookup n) ∧ d.2.disk = d'.2.disk) ∧
    (∀ n, r.2.loaded.lookup n = r'.2.loaded.lookup n) ∧
    Rewrites t.name db r.2.disk r'.2.disk ∧
    (db.disk.find (tableFile t.name) = .node (.file (Document.ofTable t).encode) →
      ∀ p, r'.2.disk.node? p = r.2.disk.node? p) ∧
    (∀ a, r.1 = .ok a → r'.1 = .ok a) ∧
    ∀ changes e, resolveAssignments t assignments = .ok changes →
      t.edit v (assign changes) = .error e → e.errorClass = .constraint →
        r.1 = .error e ∧ r'.1 = .ok (.updated 0) := by
  intro fast scan d d' r r'
  have hequation : keyEquation? t fast = some v := keyEquation?_eq_some_iff.2 ⟨column, rfl, hkey⟩
  obtain ⟨hmemory, hrewrites, hwritten, hrefused, hsame⟩ := update_agrees hin hsaves assignments fast
  refine ⟨delete_agrees hin.sound hin.found fast, hmemory, hrewrites, hwritten, fun a ha => ?_,
    fun changes e hchanges he hclass => ?_⟩
  · rw [← hsame fun changes e hchanges hrefuses => ?_]
    · exact ha
    · cases ha.symm.trans (hrefused changes e hchanges hrefuses).1
  · refine hrefused changes e hchanges ⟨v, hequation, he, ?_⟩
    rw [hclass]
    nofun

theorem key_path_agrees_seats :
    let fast := Condition.equals "a.k" (.int 1)
    let update := fun c => (run (.update "a" [("n", .int 20)] c) .never).run.run seats
    let delete := fun c => (run (.delete "a" c) .never).run.run seats
    (update fast).1 = .error (.takenValue "n" (.int 20)) ∧
      (update (.and fast fast)).1 = .ok (.updated 0) ∧
      (update fast).2.loaded.lookup "a" = (update (.and fast fast)).2.loaded.lookup "a" ∧
      (delete fast).1 = .ok (.deleted 1) ∧ (delete fast).1 = (delete (.and fast fast)).1 := by
  intro fast update delete
  obtain ⟨hname, hin⟩ := inStep_seats
  have hplain : Disk.IsPlain (tableFile seatTable.name) := by
    rw [hname]
    exact isPlain_tableFile (by decide)
  have hkey : Heading.resolve? (.ofSchema seatTable.schema) "a.k" = some seatTable.keyPosition := by
    decide +kernel
  have hchanges : resolveAssignments seatTable [("n", .int 20)] = .ok [(1, .int 20)] := by
    decide +kernel
  have he : seatTable.edit (.int 1) (assign [(1, .int 20)]) =
      .error (.takenValue "n" (.int 20)) := by
    have hmap : (seatTable.edit (.int 1) (assign [(1, .int 20)])).map (fun _ => ()) =
        .error (.takenValue "n" (.int 20)) := by decide +kernel
    cases hedit : seatTable.edit (.int 1) (assign [(1, .int 20)]) with
    | ok u =>
      rw [hedit] at hmap
      cases hmap
    | error e =>
      rw [hedit] at hmap
      cases hmap
      rfl
  obtain ⟨⟨hdelete, -⟩, hmemory, -, -, -, hrefused⟩ :=
    key_path_agrees hin (hin.saves hplain) hkey (.int 1) [("n", .int 20)]
  rw [hname] at hdelete hmemory hrefused
  obtain ⟨hfast, hscan⟩ := hrefused _ _ hchanges he rfl
  exact ⟨hfast, hscan, hmemory "a", by decide +kernel, hdelete⟩

end Database
end RelStore
