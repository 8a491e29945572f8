import RelStore.Proofs.Database.InStep
import RelStore.Proofs.Database.Sweep
import RelStore.Proofs.Statement.Names

/-! Updates and deletions that are broken off. What they have changed by then is saved, and
the same statement, run again, ends as if it had never been broken off. -/
namespace RelStore
namespace Database
open Table (Call matching swept)

variable {db db' : Database} {t u : Table} {c : Condition} {s : Statement} {stop : Nat → Bool}
  {m n : Nat} {call : Value → Call}

/-- A change of the rows that satisfy a condition makes a poll for each row, and then one for
each row that satisfies it. Stopped after some polls, it has tried the change for as many
rows as it made polls of the second kind. -/
theorem changeRows_until (hc : Table.RowChange t.schema call) (ht : Storable t)
    (hin : InStep db t) (change : Change)
    (hu : Until stop db.trace.polls m (t.size + (matching c t).length)) :
    ∃ count db', (changeRows (.atPolls stop) change t.name t c fun t key =>
        t.attempt (call key)).run.run db =
          (Until.answer m (t.size + (matching c t).length) count, db') ∧
      InStep db' (swept call t ((matching c t).take (m - t.size))) ∧
      db'.trace.polls = db.trace.polls + m := by
  rw [changeRows_eq]
  rcases Nat.lt_or_ge m t.size with hm | hm
  · obtain ⟨v, hkeys, hpolls⟩ := run_matching_until t c (hu.within hm)
    rw [Until.answer_of_lt _ hm] at hkeys
    refine ⟨0, { db with trace := v }, ?_, ?_, hpolls⟩
    · rw [run_bind, run_watch, hkeys, Until.answer_of_lt _ (by omega)]
    · rw [Nat.sub_eq_zero_of_le hm.le]
      exact hin.with_trace v
  · obtain ⟨hfirst, hsecond⟩ := hu.through hm
    obtain ⟨v, hkeys, hpolls⟩ := run_matching_until t c hfirst
    rw [Until.answer_self] at hkeys
    rw [← hpolls] at hsecond
    let p : Progress := ⟨t, 0, v⟩
    obtain ⟨q, hsweep, htable, -, hqpolls⟩ :=
      sweep_until (p := p) hc change ht.sound rfl hsecond
    have hkeep : q.count = 0 → q.table = t := sweep_same hsweep
    have hsound : q.table.Sound := htable ▸ ht.sound.swept
    have hschema : q.table.schema = t.schema := by rw [htable, Table.schema_swept]
    obtain ⟨db', hsettle, hstep, hdb'⟩ :=
      settle_inStep ht (hin.with_trace q.trace) hsound hschema hkeep
        (Until.answer (m - t.size) (matching c t).length ())
    rw [Until.map_answer] at hsettle
    refine ⟨q.count, db', ?_, htable ▸ hstep, ?_⟩
    · rw [← Until.answer_add q.count hm, ← hsettle, run_bind, run_watch, hkeys]
      simp only [run_bind, run_get, hsweep, run_modify, p]
    · rw [hdb', hqpolls, hpolls]
      omega

/-- An update or a deletion of the rows of a table that satisfy a condition, unless it is an
equation on the primary key. -/
inductive Scans (t : Table) (c : Condition) : Statement → Prop
  | update {assignments : List (String × Value)} (h : keyEquation? t c = none) :
    Scans t c (.update t.name assignments c)
  | delete (h : keyEquation? t c = none) : Scans t c (.delete t.name c)

/-- What such a statement does to the row of a key. -/
def rowCall (t : Table) : Statement → Value → Call
  | .update _ assignments _, key => .edit key fun row => do
    assign (← resolveAssignments t assignments) row
  | _, key => .erase key

def assignmentsOf : Statement → List (String × Value)
  | .update _ assignments _ => assignments
  | _ => []

theorem keyEquation?_congr (h : t.Sound) (hu : u.Sound) (hs : u.schema = t.schema) :
    keyEquation? u c = keyEquation? t c := by
  rw [keyEquation?, keyEquation?, hs, h.keyPosition_congr hu hs]

theorem Scans.of_schema (hscan : Scans t c s) (h : t.Sound) (hu : u.Sound)
    (hs : u.schema = t.schema) : Scans u c s := by
  have hn : u.name = t.name := congrArg Schema.name hs
  have hkey := keyEquation?_congr (c := c) h hu hs
  cases hscan with
  | update hnone => exact hn ▸ .update (hkey.trans hnone)
  | delete hnone => exact hn ▸ .delete (hkey.trans hnone)

theorem rowCall_congr (hs : u.schema = t.schema) (s : Statement) : rowCall u s = rowCall t s := by
  funext key
  cases s with
  | update name assignments c => simp only [rowCall, resolveAssignments_congr hs]
  | select | insert | delete | create => rfl

theorem rowCall_update {name : String} {assignments : List (String × Value)}
    {changes : List (Nat × Value)} (ha : resolveAssignments t assignments = .ok changes) :
    rowCall t (.update name assignments c) = fun key => .edit key (assign changes) := by
  funext key
  simp only [rowCall, ha, ok_bind]

theorem rowChange_rowCall {changes : List (Nat × Value)}
    (ha : resolveAssignments t (assignmentsOf s) = .ok changes) :
    Table.RowChange t.schema (rowCall t s) := by
  cases s with
  | update name assignments c =>
    have ha : resolveAssignments t assignments = .ok changes := ha
    rw [rowCall_update ha]
    exact rowChange_assign (resolveAssignments_lt ha)
  | select | insert | delete | create => exact Table.rowChange_erase t.schema

theorem submit_eq {text : String} (hp : Statement.parse text = .ok s)
    {x : Signal → Action Outcome}
    (hx : ∀ signal, run s signal = do
      poll signal
      x signal) :
    db.submit text stop =
      if stop 0 then (.error .cancelled, { db with trace := [] })
      else if stop 1 then (.error .cancelled, { db with trace := [.poll] })
      else (x (.atPolls stop)).run.run { db with trace := [.poll, .poll] } := by
  have hpoll : ∀ db : Database, (poll (.atPolls stop)).run.run db =
      if stop db.trace.polls then (.error .cancelled, db)
      else (.ok (), { db with trace := .poll :: db.trace }) := by
    intro db
    rw [poll, run_watch, Watched.run_poll, Signal.atPolls]
    cases stop db.trace.polls <;> rfl
  rw [submit, execute, run_bind, hpoll]
  have hzero : Trace.polls [] = 0 := rfl
  have hone : Trace.polls [.poll] = 1 := rfl
  simp only [hzero]
  cases stop 0 with
  | true => rfl
  | false =>
    simp only [Bool.false_eq_true, if_false, run_bind, run_lift, hp, hx, hpoll, hone]
    cases stop 1 <;> rfl

theorem run_answered {x : Action Nat} {count size : Nat}
    (h : x.run.run db = (Until.answer m size count, db')) (f : Nat → Outcome) :
    (do
      let n ← x
      pure (f n) : Action Outcome).run.run db = (Until.answer m size (f count), db') := by
  rw [run_bind, h, ← Until.map_answer f count]
  cases Until.answer m size count <;> rfl

/-- What follows the polls that come before an update or a deletion, if what it assigns
can be resolved. -/
theorem scan_until {changes : List (Nat × Value)} (hscan : Scans t c s)
    (ha : resolveAssignments t (assignmentsOf s) = .ok changes) (ht : Storable t) :
    ∃ x : Signal → Action Outcome, (∀ signal, run s signal = do
        poll signal
        x signal) ∧
      ∀ {stop m db}, InStep db t →
        Until stop db.trace.polls m (t.size + (matching c t).length) →
        ∃ outcome db', (x (.atPolls stop)).run.run db =
            (Until.answer m (t.size + (matching c t).length) outcome, db') ∧
          InStep db' (swept (rowCall t s) t ((matching c t).take (m - t.size))) ∧
          db'.trace.polls = db.trace.polls + m := by
  have hc : Table.RowChange t.schema (rowCall t s) := rowChange_rowCall ha
  cases hscan with
  | @update assignments hkey =>
    refine ⟨update t.name assignments c, fun signal => rfl, fun {stop m db} hin hu => ?_⟩
    have ha : resolveAssignments t assignments = .ok changes := ha
    rw [rowCall_update ha] at hc ⊢
    obtain ⟨db₁, htable, huntouched, -, -, hpolls⟩ := run_table_found t.name db
    rw [hin.found] at htable
    rw [← hpolls] at hu
    obtain ⟨count, db', hrun, hstep, hpolls'⟩ :=
      changeRows_until hc ht (hin.of_untouched huntouched) .update hu
    refine ⟨.updated count, db', ?_, hstep, hpolls ▸ hpolls'⟩
    have hanswer := run_answered hrun .updated
    rw [run_bind] at hanswer
    rw [update, run_bind, htable]
    simp only [run_bind, run_lift, ha, hkey]
    exact hanswer
  | delete hkey =>
    refine ⟨delete t.name c, fun signal => rfl, fun {stop m db} hin hu => ?_⟩
    obtain ⟨db₁, htable, huntouched, -, -, hpolls⟩ := run_table_found t.name db
    rw [hin.found] at htable
    rw [← hpolls] at hu
    obtain ⟨count, db', hrun, hstep, hpolls'⟩ :=
      changeRows_until hc ht (hin.of_untouched huntouched) .delete hu
    refine ⟨.deleted count, db', ?_, hstep, hpolls ▸ hpolls'⟩
    rw [delete, run_bind, htable]
    simp only [hkey]
    exact run_answered hrun .deleted

theorem submit_early (db : Database) {text : String} (hp : Statement.parse text = .ok s)
    {x : Signal → Action Outcome}
    (hx : ∀ signal, run s signal = do
      poll signal
      x signal)
    (hn : n < 2) (hquiet : ∀ j, j < n → stop j = false) (hgiven : stop n = true) :
    ∃ trace, db.submit text stop = (.error .cancelled, { db with trace }) ∧
      trace.polls = n := by
  rw [submit_eq hp hx]
  obtain rfl | rfl : n = 0 ∨ n = 1 := by omega
  · rw [hgiven, if_pos rfl]
    exact ⟨[], rfl, rfl⟩
  · rw [hquiet 0 Nat.zero_lt_one, hgiven, if_neg Bool.false_ne_true, if_pos rfl]
    exact ⟨[.poll], rfl, rfl⟩

theorem submit_refused {text : String} {assignments : List (String × Value)} {e : Error}
    (hp : Statement.parse text = .ok (.update t.name assignments c))
    (ha : resolveAssignments t assignments = .error e) (hin : InStep db t) :
    ∃ db', db.submit text (fun _ => false) = (.error e, db') ∧ InStep db' t ∧
      db'.trace.polls = 2 := by
  have hin : InStep { db with trace := [.poll, .poll] } t := hin.with_trace _
  obtain ⟨db', htable, huntouched, -, -, hpolls⟩ := run_table_found t.name
    { db with trace := [.poll, .poll] }
  rw [hin.found] at htable
  refine ⟨db', ?_, hin.of_untouched huntouched, hpolls⟩
  rw [submit_eq (x := update t.name assignments c) hp fun _ => rfl, if_neg Bool.false_ne_true,
    if_neg Bool.false_ne_true, update, run_bind, htable]
  simp only [run_bind, run_lift, ha]

theorem submit_until {text : String} {changes : List (Nat × Value)}
    (hp : Statement.parse text = .ok s) (hscan : Scans t c s)
    (ha : resolveAssignments t (assignmentsOf s) = .ok changes) (ht : Storable t)
    (hin : InStep db t) (hu : Until stop 0 n (2 + (t.size + (matching c t).length))) :
    ∃ outcome db', db.submit text stop =
        (Until.answer n (2 + (t.size + (matching c t).length)) outcome, db') ∧
      InStep db' (swept (rowCall t s) t ((matching c t).take (n - (2 + t.size)))) ∧
      db'.trace.polls = n := by
  obtain ⟨x, hx, hbody⟩ := scan_until hscan ha ht
  have hquiet : ∀ j, j < n → stop j = false := fun j hj => by
    have hstop := hu.quiet j hj
    rwa [Nat.zero_add] at hstop
  rcases Nat.lt_or_ge n 2 with hn | hn
  · have hgiven : stop n = true := by
      have hstop := hu.given (by omega)
      rwa [Nat.zero_add] at hstop
    obtain ⟨trace, hsubmit, hpolls⟩ := submit_early db hp hx hn hquiet hgiven
    refine ⟨.inserted, { db with trace }, ?_, ?_, hpolls⟩
    · rw [hsubmit, Until.answer_of_lt _ (by omega)]
    · rw [Nat.sub_eq_zero_of_le (by omega)]
      exact hin.with_trace trace
  · have hin : InStep { db with trace := [.poll, .poll] } t := hin.with_trace _
    obtain ⟨outcome, db', hrun, hstep, hpolls⟩ := hbody hin (hu.through hn).2
    refine ⟨outcome, db', ?_, ?_, ?_⟩
    · rw [submit_eq hp hx, hquiet 0 (by omega), hquiet 1 (by omega), if_neg Bool.false_ne_true,
        if_neg Bool.false_ne_true, hrun, Until.answer_add _ hn]
    · rwa [Nat.sub_sub] at hstep
    · rw [hpolls]
      show 2 + (n - 2) = n
      omega

theorem submit_through {text : String} {changes : List (Nat × Value)}
    (hp : Statement.parse text = .ok s) (hscan : Scans t c s)
    (ha : resolveAssignments t (assignmentsOf s) = .ok changes) (ht : Storable t)
    (hin : InStep db t) :
    InStep (db.submit text fun _ => false).2 (swept (rowCall t s) t (matching c t)) ∧
      (db.submit text fun _ => false).2.trace.polls = 2 + (t.size + (matching c t).length) := by
  obtain ⟨outcome, db', hsubmit, hstep, hpolls⟩ :=
    submit_until hp hscan ha ht hin Until.never
  rw [hsubmit]
  have hall : (matching c t).length ≤ 2 + (t.size + (matching c t).length) - (2 + t.size) := by
    omega
  rw [List.take_of_length_le hall] at hstep
  exact ⟨hstep, hpolls⟩

theorem submit_again {text : String} {changes : List (Nat × Value)}
    (hp : Statement.parse text = .ok s) (hscan : Scans t c s)
    (ha : resolveAssignments t (assignmentsOf s) = .ok changes) (ht : Storable t) (k : Nat)
    (hin : InStep db' (swept (rowCall t s) t ((matching c t).take k))) :
    InStep (db'.submit text fun _ => false).2 (swept (rowCall t s) t (matching c t)) := by
  have hc : Table.RowChange t.schema (rowCall t s) := rowChange_rowCall ha
  let u := swept (rowCall t s) t ((matching c t).take k)
  have hu : u.Sound := ht.sound.swept
  have hs : u.schema = t.schema := Table.schema_swept
  have hau : resolveAssignments u (assignmentsOf s) = .ok changes :=
    (resolveAssignments_congr hs _).trans ha
  have hthrough := submit_through hp (hscan.of_schema ht.sound hu hs) hau
    (ht.of_schema hu hs).1 hin
  have hagain : swept (rowCall u s) u (matching c u) = swept (rowCall t s) t (matching c t) := by
    rw [rowCall_congr hs]
    exact hc.swept_again ht.sound rfl k
  exact hagain ▸ hthrough.1

theorem Scans.table_eq (hscan : Scans t c s) : s.table = t.name := by
  cases hscan <;> rfl

/-- An update or a deletion of the rows that satisfy a condition, told to stop at some poll.
It has tried its change for the first of them in the order of their keys, and for none if it
was still looking for them; all other rows and their entries in the indexes are as before,
and the file holds the table in memory. The same statement, run again, leaves the table that
it would have left if it had not been told to stop. -/
theorem interrupted_change {text : String} (hparse : Statement.parse text = .ok s)
    (hscan : Scans t c s) (hin : InStep db t) (hquiet : ∀ j, j < n → stop j = false)
    (hgiven : stop n = true) (hn : n < (db.submit text fun _ => false).2.trace.polls) :
    let changed := (matching c t).take (n - (2 + t.size))
    let u := swept (rowCall t s) t changed
    let broken := db.submit text stop
    broken.1 = .error .cancelled ∧ InStep broken.2 u ∧
      (∀ key, key ∉ changed → u.row? key = t.row? key ∧
        ∀ column v, u.keyOf? column v = some key ↔ t.keyOf? column v = some key) ∧
      ∃ w, InStep (db.submit text fun _ => false).2 w ∧
        InStep (broken.2.submit text fun _ => false).2 w := by
  intro changed u broken
  have hword := Statement.isWordPart_of_parse hparse
  rw [hscan.table_eq] at hword
  have hplain : Disk.IsPlain (tableFile t.name) :=
    isPlain_of_not_mem (fun h => absurd (hword _ h) (by decide))
      (fun h => absurd (hword _ h) (by decide))
  have ht : Storable t := hin.storable hplain
  cases ha : resolveAssignments t (assignmentsOf s) with
  | ok changes =>
    have hc : Table.RowChange t.schema (rowCall t s) := rowChange_rowCall ha
    obtain ⟨hwhole, hpolls⟩ := submit_through hparse hscan ha ht hin
    rw [hpolls] at hn
    have hu : Until stop 0 n (2 + (t.size + (matching c t).length)) :=
      ⟨fun j hj => by rw [Nat.zero_add]; exact hquiet j hj, hn.le,
        fun _ => by rw [Nat.zero_add]; exact hgiven⟩
    obtain ⟨outcome, db', hsubmit, hstep, -⟩ := submit_until hparse hscan ha ht hin hu
    have hbroken : broken = (.error .cancelled, db') := by
      rw [← Until.answer_of_lt outcome hn]
      exact hsubmit
    rw [hbroken]
    refine ⟨rfl, hstep, fun key hkey => ⟨hc.row?_swept hkey, ?_⟩, _, hwhole, ?_⟩
    · exact hc.keyOf?_swept ht.sound hkey
    · exact submit_again hparse hscan ha ht _ hstep
  | error e =>
    -- only an update can be refused, and then before it looks at a row
    cases hscan with
    | delete => cases ha
    | @update assignments hkey =>
      have ha : resolveAssignments t assignments = .error e := ha
      obtain ⟨db₁, hwhole, hin₁, hpolls⟩ := submit_refused hparse ha hin
      rw [hwhole, hpolls] at hn
      obtain ⟨trace, hsubmit, -⟩ := submit_early (x := update t.name assignments c) db
        hparse (fun _ => rfl) hn hquiet hgiven
      have hbroken : broken = (.error .cancelled, { db with trace }) := hsubmit
      have hnone : changed = [] := by
        show (matching c t).take (n - (2 + t.size)) = []
        rw [Nat.sub_eq_zero_of_le (by omega), List.take_zero]
      have hut : u = t := congrArg (swept _ t) hnone
      obtain ⟨db₂, hagain, hin₂, -⟩ := submit_refused hparse ha (hin.with_trace trace)
      rw [hbroken, hut]
      refine ⟨rfl, hin.with_trace trace, fun _ _ => ⟨rfl, fun _ _ => Iff.rfl⟩, t, ?_, ?_⟩
      · rw [hwhole]
        exact hin₁
      · rw [hagain]
        exact hin₂

def seats : Database :=
  let go := fun _ => false
  (opened default).after [.execute "CREATE TABLE a (k INT PRIMARY KEY, n INT UNIQUE)" go,
    .execute "INSERT INTO a VALUES (1, 10)" go, .execute "INSERT INTO a VALUES (2, 20)" go,
    .execute "INSERT INTO a VALUES (3, 30)" go]

def seatTable : Table := (seats.loaded.lookup "a").getD default

theorem lookup_seats : seats.loaded.lookup "a" = some seatTable := by
  have hsome : (seats.loaded.lookup "a").isSome = true := by decide +kernel
  obtain ⟨u, hu⟩ := Option.isSome_iff_exists.1 hsome
  simp only [seatTable, hu, Option.getD_some]

theorem inStep_seats : seatTable.name = "a" ∧ InStep seats seatTable :=
  ((coherent_opened default).twins.after _).left.inStep lookup_seats

theorem interrupted_change_seats :
    let text := "UPDATE a SET n = 7 WHERE k = 1 OR n = 20"
    let broken := seats.submit text fun polls => polls == 6
    ∃ t s, Statement.parse text = .ok s ∧ (∃ c, Scans t c s) ∧ InStep seats t ∧
      6 < (seats.submit text fun _ => false).2.trace.polls ∧
      broken.1 = .error .cancelled ∧ InStep broken.2 (swept (rowCall t s) t [.int 1]) ∧
      (∃ w, InStep (seats.submit text fun _ => false).2 w ∧
        InStep (broken.2.submit text fun _ => false).2 w) ∧
      (broken.2.submit "SELECT * FROM a" fun _ => false).1 =
        .ok (.selected ["k", "n"]
          [[.int 1, .int 7], [.int 2, .int 20], [.int 3, .int 30]]) := by
  intro text broken
  let t : Table := seatTable
  let c : Condition := .or (.equals "k" (.int 1)) (.equals "n" (.int 20))
  obtain ⟨hname, hin⟩ := inStep_seats
  have hparse : Statement.parse text = .ok (.update "a" [("n", .int 7)] c) := by decide +kernel
  have hscan : Scans t c (.update "a" [("n", .int 7)] c) := hname ▸ .update rfl
  have hpolls : 6 < (seats.submit text fun _ => false).2.trace.polls := by decide +kernel
  have hchanged : (matching c t).take (6 - (2 + t.size)) = [.int 1] := by decide +kernel
  have hquiet : ∀ j, j < 6 → (j == 6) = false := by decide
  obtain ⟨hcancelled, hstep, -, hagain⟩ :=
    interrupted_change hparse hscan hin hquiet rfl hpolls
  rw [hchanged] at hstep
  exact ⟨t, _, hparse, ⟨c, hscan⟩, hin, hpolls, hcancelled, hstep, hagain, by decide +kernel⟩

end Database
end RelStore
