import RelStore.Proofs.Database.Removed
import RelStore.Proofs.Database.Safe

/-! The plan of a query as a function of the tables that are found. That tables are loaded on the
way makes no difference. -/
namespace RelStore

def Query.tables (q : Query) : List String := q.table :: q.join.toList.map Join.table

theorem Query.table_mem (q : Query) : q.table ∈ q.tables := List.mem_cons_self

theorem Query.joined_mem {q : Query} {j : Join} (hj : q.join = some j) : j.table ∈ q.tables := by
  simp [tables, hj]

namespace Database
variable {db : Database} {q : Query} {p : Plan} {left right t : Table} {name : String} {j : Join}

/-- The table that a plan goes by. One that is not found is unknown. -/
def sought (db : Database) (name : String) : Except Error Table :=
  match db.found name with
  | .ok t => .ok t
  | .error e => .error (if e.errorClass = .tableNotFound then .unknownTable name else e)

theorem sought_eq_ok_iff : db.sought name = .ok t ↔ db.found name = .ok t := by
  unfold sought
  cases db.found name <;> simp

theorem Untouched.sought {db' : Database} (h : Untouched db db') (name : String) :
    db'.sought name = db.sought name := by
  unfold Database.sought
  rw [h.found]

def planned (db : Database) (q : Query) : Except Error Plan := do
  let left ← db.sought q.table
  match q.join with
  | none => do
    let r ← Plan.choose q left none
    pure r.1
  | some j => do
    let right ← db.sought j.table
    let r ← Plan.choose q left (some (j, right))
    pure r.1

theorem Untouched.planned {db' : Database} (h : Untouched db db') (q : Query) :
    Database.planned db' q = Database.planned db q := by
  simp only [Database.planned, h.sought]

theorem run_planTable_sought (name : String) (db : Database) :
    ∃ db₁, (planTable name).run.run db = (db.sought name, db₁) ∧ Untouched db db₁ := by
  obtain ⟨db₁, hrun, huntouched, -⟩ := run_table_found name db
  refine ⟨db₁, ?_, huntouched⟩
  rw [planTable, run_tryCatch, hrun, sought]
  cases db.found name with
  | ok t => rfl
  | error e =>
    simp only
    split <;> rfl

theorem fst_run_choose (right : Option (Join × Table)) :
    (((do
      let r ← (Plan.choose q left right : Except Error (Plan × List Event))
      reportAll r.2
      pure r.1) : Action Plan).run.run db).1 = (do
        let r ← Plan.choose q left right
        pure r.1) := by
  rw [run_bind, run_lift]
  cases Plan.choose q left right with
  | error e => rfl
  | ok r =>
    obtain ⟨db₁, hreport⟩ := run_reportAll r.2 db
    simp only [run_bind, hreport]
    rfl

theorem fst_run_plan (q : Query) (db : Database) :
    ((plan q).run.run db).1 = planned db q := by
  obtain ⟨db₁, hleft, huntouched⟩ := run_planTable_sought q.table db
  rw [plan_eq, planned, run_bind, hleft]
  cases db.sought q.table with
  | error e => rfl
  | ok left =>
    simp only [ok_bind]
    cases q.join with
    | none => exact fst_run_choose none
    | some j =>
      obtain ⟨db₂, hright, -⟩ := run_planTable_sought j.table db₁
      rw [huntouched.sought] at hright
      simp only [joinTable, bind_assoc, pure_bind]
      rw [run_bind, hright]
      cases db.sought j.table with
      | error e => rfl
      | ok right => exact fst_run_choose (some (j, right))

/-- The columns that a query can show: those of its table, and those of the table it joins. -/
inductive Shows (db : Database) (q : Query) : Heading → Prop
  | one {left : Table} (hj : q.join = none) (hl : db.found q.table = .ok left) :
    Shows db q (.ofSchema left.schema)
  | two {j : Join} {left right : Table} (hj : q.join = some j)
    (hl : db.found q.table = .ok left) (hr : db.found j.table = .ok right) :
    Shows db q (.ofSchema left.schema ++ .ofSchema right.schema)

/-- The columns of a table and of the one that it is joined to. -/
def columns (left : Table) : Option (Join × Table) → Heading
  | none => .ofSchema left.schema
  | some (_, right) => .ofSchema left.schema ++ .ofSchema right.schema

theorem heading_of_source {right : Option (Join × Table)} {h : Heading} {rows : List Row}
    (hs : Query.source left right = .ok (h, rows)) : h = columns left right := by
  cases right with
  | none =>
    cases hs
    rfl
  | some jr =>
    obtain ⟨_, -, hs⟩ := bind_eq_ok_iff.1 hs
    obtain ⟨i, -, hs⟩ := bind_eq_ok_iff.1 hs
    obtain ⟨k, -, hs⟩ := bind_eq_ok_iff.1 hs
    cases hs
    rfl

/-- A plan that is chosen for sound tables has their columns, and makes rows with a cell for
each. -/
theorem rows_of_choose {right : Option (Join × Table)} {es : List Event} (hl : left.Sound)
    (hr : ∀ j u, right = some (j, u) → u.Sound) (h : Plan.choose q left right = .ok (p, es)) :
    p.heading = columns left right ∧ ∃ rows, p.rows = .ok rows ∧
      ∀ row ∈ rows, row.length = p.heading.length := by
  obtain ⟨rows, hsource, hrows⟩ := Plan.choose_eq_ok hl h
  exact ⟨heading_of_source hsource, _, hrows, fun row hrow =>
    length_of_mem_source hl hr hsource row (mem_of_mem_chosen hrow)⟩

theorem rows_of_planned (hdb : db.Registered) (h : planned db q = .ok p) :
    Shows db q p.heading ∧ ∃ rows, p.rows = .ok rows ∧
      ∀ row ∈ rows, row.length = p.heading.length := by
  obtain ⟨left, hleft, h⟩ := bind_eq_ok_iff.1 h
  rw [sought_eq_ok_iff] at hleft
  have hl := (hdb.isSound_of_found hleft).sound
  cases hj : q.join with
  | none =>
    simp only [hj] at h
    obtain ⟨⟨p', es⟩, hchoose, h⟩ := bind_eq_ok_iff.1 h
    cases h
    have hr : ∀ j u, (none : Option (Join × Table)) = some (j, u) → u.Sound := by
      intro _ _ hju
      cases hju
    obtain ⟨hheading, hrows⟩ := rows_of_choose hl hr hchoose
    exact ⟨hheading ▸ .one hj hleft, hrows⟩
  | some j =>
    simp only [hj] at h
    obtain ⟨right, hright, h⟩ := bind_eq_ok_iff.1 h
    rw [sought_eq_ok_iff] at hright
    obtain ⟨⟨p', es⟩, hchoose, h⟩ := bind_eq_ok_iff.1 h
    cases h
    have hr : ∀ j' u, some (j, right) = some (j', u) → u.Sound := by
      intro _ _ hju
      cases hju
      exact (hdb.isSound_of_found hright).sound
    obtain ⟨hheading, hrows⟩ := rows_of_choose hl hr hchoose
    exact ⟨hheading ▸ .two hj hleft hright, hrows⟩

def shown (s : Selection) (h : Heading) (rows : List Row) : Except Error Outcome :=
  match s with
  | .all => pure (.selected h.header rows)
  | .named names => do
    let is ← resolveAll h names
    let rows ← projectAll is rows
    pure (.selected names rows)

theorem fst_run_select (q : Query) (db : Database) :
    ((select q .never).run.run db).1 = (do
      let p ← planned db q
      let rows ← p.rows
      shown q.selection p.heading rows) := by
  rw [← fst_run_plan, select, run_bind]
  rcases (plan q).run.run db with ⟨e | p, db₁⟩
  · rfl
  · obtain ⟨trace, hrun⟩ := p.run_never db₁.trace
    simp only [run_bind, run_watch, hrun, ok_bind]
    cases p.rows with
    | error e => rfl
    | ok rows =>
      unfold shown
      cases q.selection with
      | all => rfl
      | named names =>
        simp only [run_bind, run_lift]
        cases resolveAll p.heading names with
        | error e => rfl
        | ok is =>
          simp only [ok_bind]
          cases projectAll is rows <;> rfl

/-- Without a signal, a query shows what its plan makes. -/
theorem fst_run_query (q : Query) (db : Database) :
    ((run (.select q) .never).run.run db).1 = (do
      let p ← planned db q
      let rows ← p.rows
      shown q.selection p.heading rows) := by
  rw [run, run_bind, run_poll_never]
  show ((select q .never).run.run { db with trace := .poll :: db.trace }).1 = _
  rw [fst_run_select, (Untouched.with_trace _).planned]

end Database
end RelStore
