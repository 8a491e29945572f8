import RelStore.Database.Run
import RelStore.Proofs.Database.Actions
import RelStore.Proofs.Plan.Naive

/-! Queries on a database answer as if they went through all rows, whatever plan is chosen. -/
namespace RelStore

namespace Query

/-- What a query answers: the named cells of the rows it chooses, or all of them. -/
def answer (q : Query) (h : Heading) (rows : List Row) : Except Error Outcome :=
  match q.selection with
  | .all => .ok (.selected h.header (q.chosen h rows))
  | .named names => do
    let is ← names.mapM h.resolve
    pure (.selected names ((q.chosen h rows).map fun row => is.filterMap (row[·]?)))

end Query

namespace Database
variable {α β : Type} {db db' : Database} {name : String} {t : Table}

theorem run_bind_eq_ok {x : Action α} {f : α → Action β} {b : β}
    (h : (x >>= f).run.run db = (.ok b, db')) :
    ∃ a db₁, x.run.run db = (.ok a, db₁) ∧ (f a).run.run db₁ = (.ok b, db') := by
  rw [run_bind] at h
  rcases hx : x.run.run db with ⟨_ | a, db₁⟩
  · rw [hx] at h
    cases h
  · rw [hx] at h
    exact ⟨a, db₁, rfl, h⟩

/-- Every table in memory was made by some run of calls. -/
def AllReachable (db : Database) : Prop :=
  ∀ name t, db.loaded.lookup name = some t → ∃ s, Table.Reachable s t

theorem reachable_of_readTable {settings : Settings} {disk : Disk}
    (h : readTable settings disk name = .ok t) : ∃ s, Table.Reachable s t := by
  obtain ⟨bytes, d, -, -, hd⟩ := readTable_eq_ok_iff.1 h
  obtain ⟨_, -, hd⟩ := bind_eq_ok_iff.1 hd
  obtain ⟨_, -, hd⟩ := bind_eq_ok_iff.1 hd
  obtain ⟨rows, -, hd⟩ := bind_eq_ok_iff.1 hd
  exact ⟨_, .ofRows hd⟩

theorem table_reachable (hdb : db.AllReachable) (h : (table name).run.run db = (.ok t, db')) :
    (∃ s, Table.Reachable s t) ∧ db'.AllReachable := by
  rw [run_table] at h
  split at h
  · rename_i u hl
    cases h
    exact ⟨hdb name t hl, hdb⟩
  · split at h
    · rename_i u hu
      cases h
      have hr := reachable_of_readTable hu
      refine ⟨hr, ?_⟩
      intro n v hv
      simp only [lookup_putTable] at hv
      split at hv
      · cases hv
        exact hr
      · exact hdb n v hv
    · cases h

theorem table_of_planTable (h : (planTable name).run.run db = (.ok t, db')) :
    (table name).run.run db = (.ok t, db') := by
  rw [planTable, run_tryCatch] at h
  rcases hx : (table name).run.run db with ⟨e | u, db₁⟩
  · rw [hx] at h
    simp only at h
    split at h <;> cases h
  · rw [hx] at h
    exact h

/-- The tables that a query reads, one after the other. -/
def Reads (db : Database) (q : Query) (left : Table) : Option (Join × Table) → Prop
  | none => q.join = none ∧ ∃ db₁, (table q.table).run.run db = (.ok left, db₁)
  | some (j, right) => q.join = some j ∧ ∃ db₁ db₂,
    (table q.table).run.run db = (.ok left, db₁) ∧ (table j.table).run.run db₁ = (.ok right, db₂)

def joinTable : Option Join → Action (Option (Join × Table))
  | none => pure none
  | some j => do
    let t ← planTable j.table
    pure (some (j, t))

theorem plan_eq (q : Query) :
    plan q = (do
      let left ← planTable q.table
      let right ← joinTable q.join
      let r ← (Plan.choose q left right : Except Error (Plan × List Event))
      reportAll r.2
      pure r.1) := by
  unfold plan
  refine bind_congr fun left => ?_
  cases q.join with
  | none => rfl
  | some j => simp only [joinTable, bind_assoc]

/-- An accepted query has read its tables, and has a plan for them. -/
theorem plan_eq_ok {q : Query} {p : Plan} (hdb : db.AllReachable)
    (h : (plan q).run.run db = (.ok p, db')) :
    ∃ left right es, Reads db q left right ∧ Plan.choose q left right = .ok (p, es) ∧
      left.Sound ∧ ∀ j u, right = some (j, u) → u.Sound := by
  rw [plan_eq] at h
  obtain ⟨left, db₁, hleft, h⟩ := run_bind_eq_ok h
  have hleft := table_of_planTable hleft
  obtain ⟨⟨s, hs⟩, hdb₁⟩ := table_reachable hdb hleft
  obtain ⟨right, db₂, hright, h⟩ := run_bind_eq_ok h
  obtain ⟨⟨p', es⟩, db₃, hchoose, h⟩ := run_bind_eq_ok h
  obtain ⟨_, db₄, -, h⟩ := run_bind_eq_ok h
  rw [run_lift, Prod.mk.injEq] at hchoose
  cases h
  refine ⟨left, right, es, ?_, hchoose.1, hs.sound, ?_⟩
  · cases hj : q.join with
    | none =>
      rw [hj] at hright
      cases hright
      exact ⟨hj, db₁, hleft⟩
    | some j =>
      rw [hj] at hright
      obtain ⟨u, db₅, hu, hright⟩ := run_bind_eq_ok hright
      cases hright
      exact ⟨hj, db₁, db₂, hleft, table_of_planTable hu⟩
  · intro j u hju
    subst hju
    cases hj : q.join with
    | none =>
      rw [hj] at hright
      cases hright
    | some j' =>
      rw [hj] at hright
      obtain ⟨v, db₅, hv, hright⟩ := run_bind_eq_ok hright
      cases hright
      obtain ⟨⟨s', hs'⟩, -⟩ := table_reachable hdb₁ (table_of_planTable hv)
      exact hs'.sound

theorem resolveAll_eq_mapM (h : Heading) (names : List String) :
    resolveAll h names = names.mapM h.resolve := by
  induction names with
  | nil => rfl
  | cons name rest ih => rw [List.mapM_cons, resolveAll, ih]

theorem lt_of_mem_resolved {h : Heading} {names : List String} {is : List Nat}
    (hr : names.mapM h.resolve = .ok is) : ∀ i ∈ is, i < h.length := by
  induction names generalizing is with
  | nil =>
    cases hr
    simp
  | cons name rest ih =>
    rw [List.mapM_cons] at hr
    obtain ⟨i, hi, hr⟩ := bind_eq_ok_iff.1 hr
    obtain ⟨js, hjs, hr⟩ := bind_eq_ok_iff.1 hr
    cases hr
    have hlt := Heading.resolve?_lt (Heading.resolve_eq_ok_iff.1 hi)
    exact List.forall_mem_cons.2 ⟨hlt, ih hjs⟩

theorem project_eq {row : Row} {is : List Nat} (h : ∀ i ∈ is, i < row.length) :
    project row is = .ok (is.filterMap (row[·]?)) := by
  induction is with
  | nil => rfl
  | cons i is ih =>
    obtain ⟨hi, his⟩ := List.forall_mem_cons.1 h
    have hv : row[i]? = some row[i] := List.getElem?_eq_getElem hi
    rw [project, Row.cell_eq_ok_iff.2 hv, ih his, List.filterMap_cons_some hv]
    rfl

theorem projectAll_eq {rows : List Row} {is : List Nat} {n : Nat}
    (hrows : ∀ row ∈ rows, row.length = n) (his : ∀ i ∈ is, i < n) :
    projectAll is rows = .ok (rows.map fun row => is.filterMap (row[·]?)) := by
  induction rows with
  | nil => rfl
  | cons row rows ih =>
    obtain ⟨hrow, hrows⟩ := List.forall_mem_cons.1 hrows
    rw [projectAll, project_eq fun i hi => hrow ▸ his i hi, ih hrows]
    rfl

theorem length_of_mem_source {left : Table} {right : Option (Join × Table)} {h : Heading}
    {rows : List Row} (hl : left.Sound) (hr : ∀ j u, right = some (j, u) → u.Sound)
    (hs : Query.source left right = .ok (h, rows)) : ∀ row ∈ rows, row.length = h.length := by
  intro row hrow
  cases right with
  | none =>
    cases hs
    exact Plan.length_of_mem_allRows hl hrow
  | some jr =>
    obtain ⟨j, right⟩ := jr
    obtain ⟨⟨leftColumn, rightColumn⟩, -, hs⟩ := bind_eq_ok_iff.1 hs
    obtain ⟨i, -, hs⟩ := bind_eq_ok_iff.1 hs
    obtain ⟨k, -, hs⟩ := bind_eq_ok_iff.1 hs
    cases hs
    rw [← Query.flatMap_joinRow] at hrow
    obtain ⟨l, hlm, hrow⟩ := List.mem_flatMap.1 hrow
    obtain ⟨r, hrm, rfl⟩ := Query.append_of_mem_joinRow hrow
    rw [List.length_append, List.length_append, Plan.length_of_mem_allRows hl hlm,
      Plan.length_of_mem_allRows (hr j right rfl) hrm]

theorem mem_of_mem_chosen {q : Query} {h : Heading} {rows : List Row} {row : Row}
    (hrow : row ∈ q.chosen h rows) : row ∈ rows := by
  unfold Query.chosen at hrow
  split at hrow
  · exact (List.mem_filter.1 (List.mem_of_mem_take hrow)).1
  · exact (List.mem_filter.1 hrow).1

/-- A query that is accepted answers by the rows of the tables that it reads: those that
satisfy its condition, as far as its limit goes, with the cells that it names. -/
theorem select_eq_answer {q : Query} {p : Plan} (hdb : db.AllReachable)
    (hp : (plan q).run.run db = (.ok p, db')) :
    ∃ left right h rows, Reads db q left right ∧ Query.source left right = .ok (h, rows) ∧
      ((select q .never).run.run db).1 = q.answer h rows := by
  obtain ⟨left, right, es, hreads, hchoose, hleft, hright⟩ := plan_eq_ok hdb hp
  obtain ⟨rows, hsource, hrows⟩ := Plan.choose_eq_ok hleft hchoose
  refine ⟨left, right, p.heading, rows, hreads, hsource, ?_⟩
  obtain ⟨trace, hrun⟩ := p.run_never db'.trace
  rw [hrows] at hrun
  have hlength : ∀ row ∈ q.chosen p.heading rows, row.length = p.heading.length := by
    intro row hrow
    exact length_of_mem_source hleft hright hsource row (mem_of_mem_chosen hrow)
  rw [select, run_bind, hp]
  simp only [run_bind, run_watch, hrun]
  unfold Query.answer
  cases q.selection with
  | all => rfl
  | named names =>
    simp only [run_bind, run_lift, resolveAll_eq_mapM]
    cases his : names.mapM p.heading.resolve with
    | error e => rfl
    | ok is =>
      simp only [projectAll_eq hlength (lt_of_mem_resolved his)]
      rfl

def posts : Schema := .ofColumns "posts" [⟨"id", .int, true, false⟩, ⟨"author", .int, false, false⟩]

/-- A table as it is made. -/
def made (s : Schema) : Table := ⟨s, 0, .empty, Table.emptyIndexes 0 s.columns⟩

def postsAfter : Table :=
  ((made posts).after (.insert [.int 7, .int 2])).after (.insert [.int 8, .int 1])

def forum : Database :=
  ⟨default, [("posts", postsAfter), ("members", Table.membersAfter (made Table.members))],
    .missing, []⟩

def authorQuery : Query :=
  ⟨.named ["mail", "posts.id"], "posts", some ⟨"members", "members.id", "author"⟩,
    some (.equals "posts.id" (.int 8)), some 5⟩

theorem forum_allReachable : forum.AllReachable := by
  intro name t h
  have hposts : Table.create posts = .ok (made posts) := by rfl
  have hmembers : Table.create Table.members = .ok (made Table.members) := by rfl
  have hmem : (name, t) ∈ forum.loaded := by
    obtain ⟨l₁, l₂, hl, -⟩ := List.lookup_eq_some_iff.1 h
    simp [hl]
  simp only [forum, List.mem_cons, List.not_mem_nil, or_false, Prod.mk.injEq] at hmem
  rcases hmem with ⟨-, rfl⟩ | ⟨-, rfl⟩
  · exact ⟨posts, ((Table.Reachable.create hposts).call _).call _⟩
  · exact ⟨Table.members, ((((Table.Reachable.create hmembers).call _).call _).call _).call _⟩

theorem select_eq_answer_author :
    ∃ p db' left right h rows, (plan authorQuery).run.run forum = (.ok p, db') ∧
      p.describe = "Limit(5, Join(IndexScan(posts.id = 8), Scan(members)))" ∧
      Reads forum authorQuery left right ∧ Query.source left right = .ok (h, rows) ∧
      authorQuery.answer h rows = .ok (.selected ["mail", "posts.id"] [[.text "c", .int 8]]) := by
  have hplan : ∃ p db', (plan authorQuery).run.run forum = (.ok p, db') ∧
      p.describe = "Limit(5, Join(IndexScan(posts.id = 8), Scan(members)))" :=
    ⟨_, _, by rfl, by rfl⟩
  obtain ⟨p, db', hp, hd⟩ := hplan
  obtain ⟨left, right, h, rows, hr, hs, ha⟩ := select_eq_answer forum_allReachable hp
  refine ⟨p, db', left, right, h, rows, hp, hd, hr, hs, ?_⟩
  rw [← ha]
  rfl

end Database
end RelStore
