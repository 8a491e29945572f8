import RelStore.Proofs.Database.Planned
import RelStore.Proofs.Plan.Refused

/-! The errors of a query. It fails before it has a plan, for one of a few reasons, or after all
its rows were made, because a column that it asks for is none or several. -/
namespace RelStore
namespace Database
variable {db : Database} {q : Query} {p : Plan} {left right t : Table} {name : String} {j : Join}
  {e : Error}

def Absent (db : Database) (name : String) : Prop :=
  db.loaded.lookup name = none ∧ db.disk.find (tableFile name) = .missing

/-- Why there is no plan for a query. -/
inductive Unplannable (db : Database) (q : Query) : Prop
  | noTable (h : Absent db q.table)
  | noJoinedTable {j : Join} (hj : q.join = some j) (h : Absent db j.table)
  /-- Both operands are qualified by one of the tables, and not by the other. -/
  | oneSided {j : Join} (hj : q.join = some j) (h : Plan.OneSided q.table j.table j)
  /-- An operand does not mean exactly one column of the table of its side. -/
  | operand {j : Join} {own s : Plan.Side} {t : Table} (hj : q.join = some j)
    (hgoes : Plan.GoesTo q.table j.table j own s) (ht : db.found (s.of (q.table, j.table)) = .ok t)
    (h : ¬ ∃! i, (Heading.ofSchema t.schema).Answers (own.written j) i)
  /-- A column of the condition means several columns of the joined tables. -/
  | ambiguous {j : Join} {h : Heading} {c : Condition} {name : String} {i k : Nat}
    (hj : q.join = some j) (hh : Shows db q h) (hc : q.condition = some c)
    (hname : name ∈ c.columns) (hi : h.Answers name i) (hk : h.Answers name k) (hik : i ≠ k)

theorem Absent.found (h : Absent db name) : db.found name = .error (.noTable name) := by
  rw [found_of_lookup_eq_none h.1, readTable, h.2]

theorem Absent.sought (h : Absent db name) : db.sought name = .error (.unknownTable name) := by
  rw [Database.sought, h.found]
  rfl

theorem Absent.found_ne_ok (h : Absent db name) : db.found name ≠ .ok t := by
  rw [h.found]
  intro herror
  cases herror

theorem found_side (hl : db.found q.table = .ok left) (hr : db.found j.table = .ok right)
    (s : Plan.Side) : db.found (s.of (q.table, j.table)) = .ok (s.of (left, right)) := by
  cases s with
  | left => exact hl
  | right => exact hr

/-- The reasons against a plan of a join are the same for the tables that are found. -/
theorem unplannable_join_iff (hdb : db.Registered) (hj : q.join = some j)
    (hl : db.found q.table = .ok left) (hr : db.found j.table = .ok right) :
    (∃ r, Plan.choose q left (some (j, right)) = .ok r) ↔ ¬ Unplannable db q := by
  have hleft : left.name = q.table := (hdb.isSound_of_found hl).named
  have hright : right.name = j.table := (hdb.isSound_of_found hr).named
  rw [Plan.choose_join_exists_iff, hleft, hright]
  constructor
  · rintro ⟨hsides, hoperands, hnames⟩ hun
    cases hun with
    | noTable h => exact h.found_ne_ok hl
    | noJoinedTable hj' h =>
      cases hj.symm.trans hj'
      exact h.found_ne_ok hr
    | oneSided hj' h =>
      cases hj.symm.trans hj'
      exact hsides h
    | operand hj' hgoes ht h =>
      rename_i own s t
      cases hj.symm.trans hj'
      cases ht.symm.trans (found_side hl hr s)
      exact h (hoperands own s hgoes)
    | ambiguous hj' hh hc hname hi hk hik =>
      cases hh with
      | one hj' =>
        rw [hj] at hj'
        cases hj'
      | two hj'' hl' hr' =>
        cases hj.symm.trans hj''
        cases hl.symm.trans hl'
        cases hr.symm.trans hr'
        exact hik (hnames _ hc _ hname _ _ hi hk)
  · intro hun
    refine ⟨fun h => hun (.oneSided hj h), fun own s hgoes => ?_, fun c hc name hname i k hi hk => ?_⟩
    · by_contra hn
      exact hun (.operand hj hgoes (found_side hl hr s) hn)
    · by_contra hik
      exact hun (.ambiguous hj (.two hj hl hr) hc hname hi hk hik)

theorem planned_exists_iff (hdb : db.Registered)
    (htables : ∀ name ∈ q.tables, (∃ t, db.found name = .ok t) ∨ Absent db name) :
    (∃ p, planned db q = .ok p) ↔ ¬ Unplannable db q := by
  rcases htables _ q.table_mem with ⟨left, hl⟩ | habsent
  · rw [planned, sought_eq_ok_iff.2 hl, ok_bind]
    cases hj : q.join with
    | none =>
      obtain ⟨r, hr⟩ := Plan.choose_exists q left
      refine iff_of_true ⟨r.1, by rw [hr]; rfl⟩ fun hun => ?_
      cases hun with
      | noTable h => exact h.found_ne_ok hl
      | noJoinedTable hj' | oneSided hj' | operand hj' | ambiguous hj' =>
        rw [hj] at hj'
        cases hj'
    | some j =>
      rcases htables _ (q.joined_mem hj) with ⟨right, hr⟩ | habsent
      · rw [← unplannable_join_iff hdb hj hl hr]
        simp only [sought_eq_ok_iff.2 hr, ok_bind]
        constructor
        · rintro ⟨p, hp⟩
          obtain ⟨r, hchoose, -⟩ := bind_eq_ok_iff.1 hp
          exact ⟨r, hchoose⟩
        · rintro ⟨r, hchoose⟩
          exact ⟨r.1, by rw [hchoose]; rfl⟩
      · simp only [habsent.sought]
        refine iff_of_false ?_ fun hun => hun (.noJoinedTable hj habsent)
        rintro ⟨p, hp⟩
        cases hp
  · rw [planned, habsent.sought]
    refine iff_of_false ?_ fun hun => hun (.noTable habsent)
    rintro ⟨p, hp⟩
    cases hp

theorem errorClass_of_planned
    (htables : ∀ name ∈ q.tables, (∃ t, db.found name = .ok t) ∨ Absent db name)
    (h : planned db q = .error e) : e.errorClass = .plan := by
  have hsought : ∀ name ∈ q.tables, db.sought name = .error e → e.errorClass = .plan := by
    intro name hname h
    rcases htables name hname with ⟨t, ht⟩ | habsent
    · rw [sought_eq_ok_iff.2 ht] at h
      cases h
    · rw [habsent.sought] at h
      cases h
      rfl
  rcases bind_eq_error_iff.1 h with h | ⟨left, -, h⟩
  · exact hsought _ q.table_mem h
  cases hj : q.join with
  | none =>
    simp only [hj] at h
    rcases bind_eq_error_iff.1 h with h | ⟨r, -, h⟩
    · exact Plan.errorClass_of_choose h
    · cases h
  | some j =>
    simp only [hj] at h
    rcases bind_eq_error_iff.1 h with h | ⟨right, -, h⟩
    · exact hsought _ (q.joined_mem hj) h
    rcases bind_eq_error_iff.1 h with h | ⟨r, -, h⟩
    · exact Plan.errorClass_of_choose h
    · cases h

theorem resolveAll_exists_iff {h : Heading} {names : List String} :
    (∃ is, resolveAll h names = .ok is) ↔ ∀ name ∈ names, ∃! i, h.Answers name i := by
  simp only [← Heading.exists_resolve?_iff, ← Heading.resolve_eq_ok_iff]
  induction names with
  | nil => simp [resolveAll]
  | cons name rest ih =>
    rw [List.forall_mem_cons, ← ih, resolveAll]
    cases h.resolve name with
    | error e => simp [bind, Except.bind]
    | ok i => cases resolveAll h rest <;> simp [bind, Except.bind, pure, Except.pure]

theorem errorClass_of_resolveAll {h : Heading} {names : List String}
    (he : resolveAll h names = .error e) : e.errorClass = .columnNotFound := by
  induction names with
  | nil => cases he
  | cons name rest ih =>
    rcases bind_eq_error_iff.1 he with he | ⟨i, -, he⟩
    · unfold Heading.resolve at he
      split at he <;> cases he <;> rfl
    rcases bind_eq_error_iff.1 he with he | ⟨is, -, he⟩
    · exact ih he
    · cases he

theorem shown_eq_error_iff {s : Selection} {h : Heading} {rows : List Row}
    (hrows : ∀ row ∈ rows, row.length = h.length) :
    shown s h rows = .error e ↔ ∃ names, s = .named names ∧ resolveAll h names = .error e := by
  cases s with
  | all => simp [shown, pure, Except.pure]
  | named names =>
    simp only [shown, Selection.named.injEq, exists_eq_left']
    cases hresolved : resolveAll h names with
    | error e' => simp [bind, Except.bind]
    | ok is =>
      rw [resolveAll_eq_mapM] at hresolved
      rw [ok_bind, projectAll_eq hrows (lt_of_mem_resolved hresolved)]
      simp [bind, Except.bind, pure, Except.pure]

/-- There is no plan for a query exactly if a table is missing, an operand of the join does not
mean one column of its side, both operands are on one side, or a column of the condition of a join
means several. All of these are errors of the planner. A plan that was made can be run, whatever
was done before, and each of its scans by an index finds the column and its index. Then only a
column that is asked for, and is none or several of those that the plan has, makes the query
fail. -/
theorem run_query_error_iff (hdb : db.Registered)
    (htables : ∀ name ∈ q.tables, (∃ t, db.found name = .ok t) ∨ Absent db name) :
    let planned := ((plan q).run.run db).1
    let answer := ((run (.select q) .never).run.run db).1
    ((∃ e, planned = .error e) ↔ Unplannable db q) ∧
    (∀ e, planned = .error e → e.errorClass = .plan ∧ answer = .error e) ∧
    ∀ p, planned = .ok p →
      Shows db q p.heading ∧
      (∀ trace, ∃ rows, ((p.run .never).run.run trace).1 = .ok rows) ∧
      (∀ e ∈ p.indexScans, ∃ found, e.1.find e.2.1 e.2.2 = .ok found) ∧
      (∀ e, answer = .error e → e.errorClass = .columnNotFound) ∧
      ((∃ e, answer = .error e) ↔ ∃ names, q.selection = .named names ∧
        ∃ name ∈ names, ¬ ∃! i, p.heading.Answers name i) := by
  simp only [fst_run_plan, fst_run_query]
  refine ⟨?_, fun e he => ⟨errorClass_of_planned htables he, ?_⟩, fun p hp => ?_⟩
  · rw [← not_iff_not, ← planned_exists_iff hdb htables]
    cases planned db q <;> simp
  · rw [he]
    rfl
  · obtain ⟨hshows, rows, hrows, hwidth⟩ := rows_of_planned hdb hp
    have hrun : ∀ trace, ∃ rows, ((p.run .never).run.run trace).1 = .ok rows := by
      intro trace
      obtain ⟨trace', hrun⟩ := p.run_never trace
      exact ⟨rows, by rw [hrun, hrows]⟩
    simp only [hp, hrows, ok_bind, shown_eq_error_iff hwidth]
    refine ⟨hshows, hrun, Plan.find_of_rows hrows, ?_, ?_⟩
    · rintro e ⟨names, -, he⟩
      exact errorClass_of_resolveAll he
    · rw [exists_comm]
      simp only [exists_and_left]
      refine exists_congr fun names => and_congr_right fun _ => ?_
      have hfails : (∃ e, resolveAll p.heading names = .error e) ↔
          ¬ ∃ is, resolveAll p.heading names = .ok is := by
        cases resolveAll p.heading names <;> simp
      rw [hfails, resolveAll_exists_iff]
      simp only [not_forall, exists_prop]

theorem run_query_error_iff_forum :
    let named : Query := { authorQuery with selection := .named ["id"] }
    let visited : Query := { authorQuery with join := some ⟨"visitors", "visitors.id", "author"⟩ }
    (∃ p, ((plan named).run.run forum).1 = .ok p ∧
      ∃ name ∈ ["id"], ¬ ∃! i, p.heading.Answers name i) ∧
    ∃ e, ((plan visited).run.run forum).1 = .error e ∧ e.errorClass = .plan := by
  intro named visited
  have hposts : forum.found "posts" = .ok postsAfter := found_of_lookup rfl
  have hmembers : ∃ t, forum.found "members" = .ok t := ⟨_, found_of_lookup rfl⟩
  have hvisitors : Absent forum "visitors" := ⟨by decide, by decide +kernel⟩
  have hnamed : ∀ name ∈ named.tables, (∃ t, forum.found name = .ok t) ∨ Absent forum name :=
    List.forall_mem_cons.2 ⟨.inl ⟨_, hposts⟩, List.forall_mem_singleton.2 (.inl hmembers)⟩
  have hvisited : ∀ name ∈ visited.tables, (∃ t, forum.found name = .ok t) ∨ Absent forum name :=
    List.forall_mem_cons.2 ⟨.inl ⟨_, hposts⟩, List.forall_mem_singleton.2 (.inr hvisitors)⟩
  have hplan : ∃ p, ((plan named).run.run forum).1 = .ok p := ⟨_, by rfl⟩
  have hanswer : ((run (.select named) .never).run.run forum).1 =
      .error (.ambiguousColumn "id") := by rfl
  have hvisit := run_query_error_iff registered_forum hvisited
  obtain ⟨e, he⟩ := hvisit.1.2 (.noJoinedTable rfl hvisitors)
  refine ⟨?_, e, he, (hvisit.2.1 e he).1⟩
  obtain ⟨p, hp⟩ := hplan
  obtain ⟨-, -, -, -, hfails⟩ := (run_query_error_iff registered_forum hnamed).2.2 p hp
  obtain ⟨names, hnames, hname⟩ := hfails.1 ⟨_, hanswer⟩
  cases hnames
  exact ⟨p, hp, hname⟩

end Database
end RelStore
