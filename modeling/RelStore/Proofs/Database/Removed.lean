import RelStore.Proofs.Database.ByKey
import RelStore.Proofs.Database.Loads
import RelStore.Proofs.Plan.Refused
import RelStore.Proofs.Table.Erased

/-! A deletion takes out what a query with its condition shows. The query finds the rows by an
index or by going through them, the deletion by the key or by going through them, and all of
these ways come to the same rows. -/
namespace RelStore

namespace Database
open Table (Call matching swept accepted satisfying cleared Without)
variable {db db' : Database} {name : String} {s : Schema} {t : Table} {c : Condition}

/-- All columns of the rows of a table that satisfy a condition. -/
abbrev selectAll (name : String) (c : Condition) : Statement :=
  .select ⟨.all, name, none, some c, none⟩

theorem run_planTable (hfound : db.found name = .ok t) :
    ∃ db', (planTable name).run.run db = (.ok t, db') := by
  obtain ⟨db', hrun, -⟩ := run_table_found name db
  rw [hfound] at hrun
  exact ⟨db', by rw [planTable, run_tryCatch, hrun]⟩

theorem run_reportAll (es : List Event) (db : Database) :
    ∃ db', (reportAll es).run.run db = (.ok (), db') := by
  induction es generalizing db with
  | nil => exact ⟨db, rfl⟩
  | cons e rest ih => exact ih { db with trace := .event e :: db.trace }

theorem run_plan {q : Query} (hfound : db.found q.table = .ok t) (hjoin : q.join = none) :
    ∃ p es db', Plan.choose q t none = .ok (p, es) ∧ (plan q).run.run db = (.ok p, db') := by
  obtain ⟨⟨p, es⟩, hchoose⟩ := Plan.choose_exists q t
  obtain ⟨db₁, htable⟩ := run_planTable hfound
  obtain ⟨db', hreport⟩ := run_reportAll es db₁
  refine ⟨p, es, db', hchoose, ?_⟩
  rw [plan_eq, hjoin]
  simp only [run_bind, htable, joinTable, run_pure, hchoose, run_lift, hreport]

theorem run_selectAll (ht : t.Sound) (hfound : db.found name = .ok t) (c : Condition) :
    let r := (run (selectAll name c) .never).run.run db
    r.1 = .ok (.selected (Heading.ofSchema t.schema).header (satisfying c t)) ∧
      r.2.disk = db.disk ∧ r.2.found name = .ok t := by
  intro r
  let q : Query := ⟨.all, name, none, some c, none⟩
  let polled : Database := { db with trace := .poll :: db.trace }
  have hpolled : polled.found q.table = .ok t := ((Untouched.with_trace _).found name).trans hfound
  obtain ⟨p, es, db₁, hchoose, hplan⟩ := run_plan hpolled rfl
  obtain ⟨rows, hsource, hrows⟩ := Plan.choose_eq_ok ht hchoose
  obtain ⟨hheading, rfl⟩ := Prod.mk.inj (Except.ok.inj hsource)
  obtain ⟨trace, hrun⟩ := p.run_never db₁.trace
  rw [hrows, ← hheading] at hrun
  have hr : r = (select q .never).run.run polled := by
    show (poll .never >>= fun _ => select q .never : Action Outcome).run.run db = _
    rw [run_bind, run_poll_never]
  have hanswer : r.1 = .ok (.selected (Heading.ofSchema t.schema).header (satisfying c t)) := by
    rw [hr, select, run_bind, hplan]
    simp only [run_bind, run_watch, hrun]
    rw [← hheading]
    rfl
  have hloads := loads_select q .never polled polled (.refl polled)
  rw [← hr, hanswer] at hloads
  have huntouched : Untouched polled r.2 := OnlyLoads.untouched hloads
  exact ⟨hanswer, huntouched.disk, (huntouched.found name).trans hpolled⟩

theorem commits_cleared (ht : t.Sound) (hfound : db.found name = .ok t) (c : Condition) :
    Commits name (cleared c t) (.deleted (satisfying c t).length) db
      ((run (.delete name c) .never).run.run db) := by
  have hrows : ∀ key ∈ matching c t, ∃ row, t.row? key = some row := by
    intro key hkey
    obtain ⟨row, hrow, -⟩ := Table.mem_matching.1 hkey
    exact ⟨row, hrow⟩
  have hcommits := commits_delete_matching ht hfound c
  rw [ht.accepted_erase (Table.nodup_matching c t) hrows, Table.length_matching] at hcommits
  exact hcommits

/-- What a query with a condition shows is what a deletion with this condition takes out, whatever
ways they go: it counts these rows, leaves the others as they were, and frees their primary and
unique values. Then the query shows nothing, and the deletion has nothing left to take out. -/
theorem delete_takes_out_selected (ht : Table.Reachable s t) (hfound : db.found name = .ok t)
    (hsaves : ∀ bytes, (db.disk.save (tableFile t.name) bytes).1 = true) (c : Condition) :
    let select := run (selectAll name c) .never
    let delete := run (.delete name c) .never
    let shown := select.run.run db
    let deleted := delete.run.run shown.2
    let reshown := select.run.run deleted.2
    let again := delete.run.run reshown.2
    ∃ header rows u, shown.1 = .ok (.selected header rows) ∧
      deleted.1 = .ok (.deleted rows.length) ∧ deleted.2.found name = .ok u ∧ Without t rows u ∧
      reshown.1 = .ok (.selected header []) ∧
      again.1 = .ok (.deleted 0) ∧ again.2.found name = .ok u := by
  intro select delete shown deleted reshown again
  have hsound : t.Sound := ht.sound
  let u := cleared c t
  have husound : u.Sound := hsound.cleared c
  have hschema : u.schema = t.schema := Table.schema_cleared c t
  have hname : u.name = t.name := congrArg Schema.name hschema
  have hnone : matching c u = [] := hsound.matching_cleared c
  have hempty : satisfying c u = [] := by
    rw [← List.length_eq_zero_iff, ← Table.length_matching, hnone, List.length_nil]
  have hsame : cleared c u = u := by rw [cleared, hnone, Table.swept_nil]
  obtain ⟨hshown, hdisk, hfound₁⟩ := run_selectAll hsound hfound c
  have hdeleted := commits_cleared hsound hfound₁ c
  have hfound₂ : deleted.2.found name = .ok u := hdeleted.remembers.found
  obtain ⟨hreshown, hredisk, hfound₃⟩ := run_selectAll husound hfound₂ c
  have hagain := commits_cleared husound hfound₃ c
  rw [hempty, hschema] at hreshown
  rw [hempty, hsame] at hagain
  have hsave : (shown.2.disk.save (tableFile u.name) (Document.ofTable u).encode).1 = true := by
    rw [hdisk, hname]
    exact hsaves _
  have hresave : (reshown.2.disk.save (tableFile u.name) (Document.ofTable u).encode).1 = true := by
    rw [hredisk, hdeleted.disk]
    exact Disk.save_again (Prod.ext hsave rfl) _
  exact ⟨_, _, u, hshown, hdeleted.answer.trans (if_pos hsave), hfound₂, hsound.without c, hreshown,
    hagain.answer.trans (if_pos hresave), hagain.remembers.found⟩

theorem delete_takes_out_selected_seats :
    let c : Condition := .or (.equals "a.k" (.int 1)) (.equals "n" (.int 20))
    let shown := (run (selectAll "a" c) .never).run.run seats
    let deleted := (run (.delete "a" c) .never).run.run shown.2
    let rows : List Row := [[.int 1, .int 10], [.int 2, .int 20]]
    shown.1 = .ok (.selected ["k", "n"] rows) ∧ deleted.1 = .ok (.deleted 2) ∧
      ∃ u, deleted.2.found "a" = .ok u ∧ Without seatTable rows u := by
  intro c shown deleted rows
  obtain ⟨hname, hin⟩ := inStep_seats
  obtain ⟨s, -, hreachable⟩ := hin.reachable
  have hplain : Disk.IsPlain (tableFile seatTable.name) := by
    rw [hname]
    exact isPlain_tableFile (by decide)
  have hfound : seats.found "a" = .ok seatTable := found_of_lookup lookup_seats
  obtain ⟨header, rows', u, hshown, hdeleted, hu, hwithout, -⟩ :=
    delete_takes_out_selected hreachable hfound (hin.saves hplain) c
  have hrows : shown.1 = .ok (.selected ["k", "n"] rows) := by decide +kernel
  cases hshown.symm.trans hrows
  exact ⟨hrows, hdeleted, u, hu, hwithout⟩

end Database
end RelStore
