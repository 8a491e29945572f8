import Mathlib.Data.List.TakeWhile
import RelStore.Proofs.Database.Create
import RelStore.Proofs.Database.Planned
import RelStore.Proofs.Statement.Listed

/-! The names that are shown above the columns of a query. Each of them means the column below it,
and so a query for these names selects what a query for all columns does. -/
namespace RelStore

theorem splitName?_eq_none {name : String} (h : '.' ∉ name.toList) : splitName? name = none := by
  have hall : name.toList.dropWhile (· != '.') = [] := by
    rw [List.dropWhile_eq_nil_iff]
    intro c hc
    exact bne_iff_ne.2 fun hdot => h (hdot ▸ hc)
  simp only [splitName?, hall]

theorem splitName?_dot {table : String} (h : '.' ∉ table.toList) (column : String) :
    splitName? (table ++ "." ++ column) = some (table, column) := by
  have hbefore : ∀ c ∈ table.toList, (c != '.') = true :=
    fun c hc => bne_iff_ne.2 fun hdot => h (hdot ▸ hc)
  have hname : (table ++ "." ++ column).toList = table.toList ++ '.' :: column.toList := by
    rw [String.toList_append, String.toList_append, List.append_assoc]
    rfl
  simp only [splitName?, hname, List.dropWhile_append_of_pos hbefore,
    List.takeWhile_append_of_pos hbefore]
  simp [String.ofList_toList]

namespace Heading
variable {h : Heading} {name : String} {i : Nat} {a b : Attribute}

/-- The names of tables and columns have no dots, and no column has the same name as another one
of its table. -/
structure Plain (h : Heading) : Prop where
  table : ∀ a ∈ h, '.' ∉ a.table.toList
  name : ∀ a ∈ h, '.' ∉ a.name.toList
  nodup : (h.map fun a => (a.table, a.name)).Nodup

theorem table_eq_of_not_joined (hj : isJoined h = false) (ha : a ∈ h) (hb : b ∈ h) :
    a.table = b.table := by
  cases h with
  | nil => cases ha
  | cons first rest =>
    have hfirst : ∀ c ∈ first :: rest, c.table = first.table := by
      rw [isJoined, List.any_eq_false] at hj
      intro c hc
      rcases List.mem_cons.1 hc with rfl | hc
      · rfl
      · simpa using hj c hc
    rw [hfirst a ha, hfirst b hb]

theorem plain_ofSchema {s : Schema} (hname : '.' ∉ s.name.toList)
    (hcolumns : ∀ c ∈ s.columns, '.' ∉ c.name.toList) (hnodup : s.columnNames.Nodup) :
    (ofSchema s).Plain := by
  refine ⟨fun a ha => ?_, fun a ha => ?_, ?_⟩
  · obtain ⟨c, -, rfl⟩ := List.mem_map.1 ha
    exact hname
  · obtain ⟨c, hc, rfl⟩ := List.mem_map.1 ha
    exact hcolumns c hc
  · refine List.Nodup.of_map Prod.snd ?_
    rw [ofSchema, List.map_map, List.map_map]
    exact hnodup

theorem Plain.append {g : Heading} (hh : h.Plain) (hg : g.Plain)
    (hne : ∀ a ∈ h, ∀ b ∈ g, a.table ≠ b.table) : Plain (h ++ g) := by
  refine ⟨List.forall_mem_append.2 ⟨hh.table, hg.table⟩,
    List.forall_mem_append.2 ⟨hh.name, hg.name⟩, ?_⟩
  rw [List.map_append]
  refine hh.nodup.append hg.nodup fun n hn hn' => ?_
  obtain ⟨a, ha, rfl⟩ := List.mem_map.1 hn
  obtain ⟨b, hb, hab⟩ := List.mem_map.1 hn'
  exact hne a ha b hb (Prod.mk.inj hab).1.symm

theorem Plain.eq_of_same (hp : h.Plain) {j : Nat} (ha : h[i]? = some a) (hb : h[j]? = some b)
    (htable : b.table = a.table) (hname : b.name = a.name) : j = i := by
  obtain ⟨hi, rfl⟩ := List.getElem?_eq_some_iff.1 ha
  obtain ⟨hj, rfl⟩ := List.getElem?_eq_some_iff.1 hb
  let names := h.map fun a => (a.table, a.name)
  have hi' : i < names.length := by simpa [names] using hi
  have hj' : j < names.length := by simpa [names] using hj
  have hsame : names[j] = names[i] := by simp [names, htable, hname]
  exact (hp.nodup.getElem_inj_iff).1 hsame

theorem Plain.resolve?_header (hp : h.Plain) (hi : h.header[i]? = some name) :
    resolve? h name = some i := by
  rw [resolve?_eq_some_iff_unique]
  unfold header at hi
  split at hi
  · rw [List.getElem?_map] at hi
    obtain ⟨a, ha, rfl⟩ := Option.map_eq_some_iff.1 hi
    have hsplit := splitName?_dot (hp.table a (List.mem_of_getElem? ha)) a.name
    have hanswers : ∀ b : Attribute, b.answersTo a.qualified = true ↔
        b.table = a.table ∧ b.name = a.name := by
      intro b
      rw [Attribute.answersTo, Attribute.qualified, hsplit]
      simp
    refine ⟨⟨a, ha, (hanswers a).2 ⟨rfl, rfl⟩⟩, fun j b hb hbn => ?_⟩
    obtain ⟨htable, hname⟩ := (hanswers b).1 hbn
    exact hp.eq_of_same ha hb htable hname
  · rename_i hj
    rw [List.getElem?_map] at hi
    obtain ⟨a, ha, rfl⟩ := Option.map_eq_some_iff.1 hi
    have hsplit := splitName?_eq_none (hp.name a (List.mem_of_getElem? ha))
    have hanswers : ∀ b : Attribute, b.answersTo a.name = true ↔ b.name = a.name := by
      intro b
      rw [Attribute.answersTo, hsplit]
      exact beq_iff_eq
    refine ⟨⟨a, ha, (hanswers a).2 rfl⟩, fun j b hb hbn => ?_⟩
    have htable := table_eq_of_not_joined (Bool.not_eq_true _ ▸ hj) (List.mem_of_getElem? hb)
      (List.mem_of_getElem? ha)
    exact hp.eq_of_same ha hb htable ((hanswers b).1 hbn)

theorem length_header (h : Heading) : h.header.length = h.length := by
  unfold header
  split <;> exact List.length_map _

end Heading

namespace Database
variable {db : Database} {q : Query} {t : Table} {name : String} {signal : Signal} {o : Outcome}
  {row : Row} {rows : List Row}

theorem resolveAll_range' {h : Heading} {names : List String} {i : Nat}
    (hn : ∀ k name, names[k]? = some name → h.resolve? name = some (i + k)) :
    resolveAll h names = .ok (List.range' i names.length) := by
  induction names generalizing i with
  | nil => rfl
  | cons name rest ih =>
    have hfirst : h.resolve name = .ok i := Heading.resolve_eq_ok_iff.2 (hn 0 name rfl)
    have hrest : resolveAll h rest = .ok (List.range' (i + 1) rest.length) := by
      refine ih fun k n hk => ?_
      rw [hn (k + 1) n hk, Nat.add_assoc, Nat.add_comm 1 k]
    rw [resolveAll, hfirst, ok_bind, hrest]
    rfl

theorem project_range' {n i : Nat} (h : row.length = i + n) :
    project row (List.range' i n) = .ok (row.drop i) := by
  induction n generalizing i with
  | zero =>
    rw [List.drop_of_length_le (by omega)]
    rfl
  | succ n ih =>
    have hi : i < row.length := by omega
    have hcell : row[i]? = some row[i] := List.getElem?_eq_getElem hi
    rw [List.range'_succ, project, Row.cell_eq_ok_iff.2 hcell, ok_bind, ih (by omega),
      List.drop_eq_getElem_cons hi]
    rfl

theorem projectAll_range' {n : Nat} (h : ∀ row ∈ rows, row.length = n) :
    projectAll (List.range' 0 n) rows = .ok rows := by
  induction rows with
  | nil => rfl
  | cons row rest ih =>
    obtain ⟨hrow, hrest⟩ := List.forall_mem_cons.1 h
    rw [projectAll, project_range' (hrow.trans (Nat.zero_add n).symm), ok_bind, ih hrest]
    rfl

def Made (t : Table) : Prop :=
  ∃ s db db' u, (create s).run.run db = (.ok u, db') ∧ t.schema = u.schema

theorem newTable_of_create {s : Schema} {db' : Database}
    (h : (create s).run.run db = (.ok t, db')) : newTable s = .ok t := by
  rw [← createOn_willing] at h
  rcases run_createOn .willing s db with
    ⟨e, hfails, -⟩ | ⟨u, disk, hu, -, ⟨-, hdone⟩ | ⟨e, -, hfails⟩⟩
  · rw [hfails] at h
    cases h
  · rw [hdone] at h
    cases h
    exact hu
  · rw [hfails] at h
    cases h

theorem Made.names (h : Made t) :
    IsIdentifier t.schema.name ∧ ∀ c ∈ t.schema.columns, IsIdentifier c.name := by
  obtain ⟨s, db, db', u, hrun, hschema⟩ := h
  obtain ⟨hname, hcolumns, hcreate⟩ := newTable_eq_ok_iff.1 (newTable_of_create hrun)
  obtain ⟨-, i, -, rfl⟩ := Table.create_eq_ok_iff.1 hcreate
  rw [hschema]
  exact ⟨hname, hcolumns⟩

theorem made_of_create {s : Schema} {u : Table} (hnew : newTable s = .ok u)
    (hdone : ((create s).run.run db).1.isOk = true) (hschema : t.schema = u.schema) : Made t := by
  rcases hrun : (create s).run.run db with ⟨e | v, db'⟩
  · rw [hrun] at hdone
    cases hdone
  · cases (newTable_of_create hrun).symm.trans hnew
    exact ⟨s, db, db', u, hrun, hschema⟩

theorem not_mem_of_isIdentifier (h : IsIdentifier name) : '.' ∉ name.toList :=
  not_mem_of_isName (isName_iff.2 h) (by decide)

theorem Made.plain (h : Made t) (ht : t.Sound) : (Heading.ofSchema t.schema).Plain :=
  Heading.plain_ofSchema (not_mem_of_isIdentifier h.names.1)
    (fun c hc => not_mem_of_isIdentifier (h.names.2 c hc)) ht.proper.nodup

theorem plain_of_shows {h : Heading} (hdb : db.Registered)
    (hmade : ∀ name ∈ q.tables, ∀ t, db.found name = .ok t → Made t)
    (hne : ∀ j, q.join = some j → q.table ≠ j.table) (hshows : Shows db q h) : h.Plain := by
  cases hshows with
  | one hj hl => exact (hmade _ q.table_mem _ hl).plain (hdb.isSound_of_found hl).sound
  | two hj hl hr =>
    have hleft := hdb.isSound_of_found hl
    have hright := hdb.isSound_of_found hr
    refine ((hmade _ q.table_mem _ hl).plain hleft.sound).append
      ((hmade _ (q.joined_mem hj) _ hr).plain hright.sound) fun a ha b hb hab => hne _ hj ?_
    obtain ⟨c, -, rfl⟩ := List.mem_map.1 ha
    obtain ⟨d, -, rfl⟩ := List.mem_map.1 hb
    rw [← hleft.named, ← hright.named]
    exact hab

theorem ne_nil_of_shows {h : Heading} (hdb : db.Registered) (hshows : Shows db q h) : h ≠ [] := by
  have hcolumns : ∀ {name : String} {t : Table}, db.found name = .ok t →
      Heading.ofSchema t.schema ≠ [] := by
    intro name t ht hnil
    obtain ⟨k, hk, -⟩ := (hdb.isSound_of_found ht).sound.proper.primary
    rw [List.map_eq_nil_iff.1 hnil] at hk
    cases hk
  cases hshows with
  | one hj hl => exact hcolumns hl
  | two hj hl hr => exact List.append_ne_nil_of_left_ne_nil (hcolumns hl) _

/-- A query for all columns that is answered has a plan, and shows the rows that this makes. -/
theorem run_all_eq_ok {db' : Database} (hall : q.selection = .all)
    (h : (run (.select q) signal).run.run db = (.ok o, db')) :
    ∃ p rows db₁ db₂, (poll signal).run.run db = (.ok (), db₁) ∧
      (plan q).run.run db₁ = (.ok p, db₂) ∧ (watch (p.run signal)).run.run db₂ = (.ok rows, db') ∧
      o = .selected p.heading.header rows := by
  obtain ⟨_, db₁, hpoll, h⟩ := run_bind_eq_ok h
  obtain ⟨p, db₂, hplan, h⟩ := run_bind_eq_ok h
  obtain ⟨rows, db₃, hwatch, h⟩ := run_bind_eq_ok h
  simp only [hall] at h
  cases h
  exact ⟨p, rows, db₁, db₂, hpoll, hplan, hwatch, rfl⟩

/-- Where a query for all columns of tables that were made is answered, each name above a column
means this column. A query for these names in this order has the same answer, and leaves the same
database. It is what the tokens of the first query become with the names in place of the star. -/
theorem run_header (hdb : db.Registered) (hall : q.selection = .all)
    (hmade : ∀ name ∈ q.tables, ∀ t, db.found name = .ok t → Made t)
    (hne : ∀ j, q.join = some j → q.table ≠ j.table)
    (haccepted : ((run (.select q) signal).run.run db).1 = .ok o) :
    ∃ h rows, Shows db q h ∧ o = .selected h.header rows ∧
      (∀ i name, h.header[i]? = some name → h.resolve? name = some i) ∧
      (run (.select { q with selection := .named h.header }) signal).run.run db =
        (run (.select q) signal).run.run db ∧
      ∀ ts ts' us, ts.map Token.kind = .keyword .select :: .star :: us →
        ts'.map Token.kind = .keyword .select :: Grammar.listed h.header ++ us →
          Statement.ofTokens ts = .ok (.select q) →
          Statement.ofTokens ts' = .ok (.select { q with selection := .named h.header }) := by
  rcases hrun : (run (.select q) signal).run.run db with ⟨r, db'⟩
  rw [hrun] at haccepted
  cases haccepted
  obtain ⟨p, rows, db₁, db₂, hpoll, hplan, hwatch, rfl⟩ := run_all_eq_ok hall hrun
  have huntouched : Untouched db db₁ :=
    ((loads_poll signal db).of_ok (.refl db) hpoll).untouched
  have hplanned : planned db q = .ok p := by
    rw [← huntouched.planned, ← fst_run_plan, hplan]
  obtain ⟨hshows, -⟩ := rows_of_planned hdb hplanned
  have hresolve : ∀ i name, p.heading.header[i]? = some name → p.heading.resolve? name = some i :=
    fun i name => (plain_of_shows hdb hmade hne hshows).resolve?_header
  have hnames : p.heading.header ≠ [] := by
    rw [← List.length_pos_iff, Heading.length_header]
    exact List.length_pos_iff.2 (ne_nil_of_shows hdb hshows)
  refine ⟨p.heading, rows, hshows, rfl, hresolve, ?_, fun ts ts' us hts hts' h =>
    Statement.ofTokens_listed hall hnames hts hts' h⟩
  -- the rows have a cell for each column, with or without a signal
  obtain ⟨hfits, hdb₂⟩ := (safe_plan q).of_ok ((safe_poll signal).of_ok hdb hpoll).2 hplan
  obtain ⟨hwidth, -⟩ := (safe_watch (Plan.ensures_run hfits)).of_ok hdb₂ hwatch
  have hpositions : resolveAll p.heading p.heading.header =
      .ok (List.range' 0 p.heading.length) := by
    rw [resolveAll_range' fun k name hk => by rw [hresolve k name hk, Nat.zero_add],
      Heading.length_header]
  have hplan' : (plan { q with selection := .named p.heading.header }).run.run db₁ =
      (.ok p, db₂) := hplan
  rw [run, run_bind, hpoll]
  simp only [select, run_bind, hplan', hwatch, hpositions, run_lift, projectAll_range' hwidth,
    run_pure]

/-- Both tables of the forum have an `id`, and above the columns each is called by its table. -/
theorem run_header_forum :
    ((run (.select { authorQuery with
      selection := .named ["posts.id", "posts.author", "members.id", "members.mail"] })
        .never).run.run forum).1 =
      .ok (.selected ["posts.id", "posts.author", "members.id", "members.mail"]
        [[.int 8, .int 1, .int 1, .text "c"]]) := by
  let q : Query := { authorQuery with selection := .all }
  have haccepted : ((run (.select q) .never).run.run forum).1 =
      .ok (.selected ["posts.id", "posts.author", "members.id", "members.mail"]
        [[.int 8, .int 1, .int 1, .text "c"]]) := by rfl
  let empty : Database := ⟨default, [], .empty, []⟩
  have hposts : ((create posts).run.run empty).1.isOk = true := by decide +kernel
  have hmembers : ((create Table.members).run.run empty).1.isOk = true := by decide +kernel
  have hnewPosts : newTable posts = .ok (made posts) := by rfl
  have hnewMembers : newTable Table.members = .ok (made Table.members) := by rfl
  have hmade : ∀ name ∈ q.tables, ∀ t, forum.found name = .ok t → Made t := by
    refine List.forall_mem_cons.2 ⟨fun t ht => ?_, List.forall_mem_singleton.2 fun t ht => ?_⟩
    · have hfound : forum.found "posts" = .ok postsAfter := found_of_lookup rfl
      cases hfound.symm.trans ht
      exact made_of_create hnewPosts hposts rfl
    · have hfound : forum.found "members" = .ok (Table.membersAfter (made Table.members)) :=
        found_of_lookup rfl
      cases hfound.symm.trans ht
      exact made_of_create hnewMembers hmembers rfl
  have hne : ∀ j, q.join = some j → q.table ≠ j.table := by
    rintro j ⟨⟩
    decide
  obtain ⟨h, rows, -, ho, -, hsame, -⟩ := run_header registered_forum rfl hmade hne haccepted
  rw [← (Outcome.selected.inj ho).1] at hsame
  exact (congrArg Prod.fst hsame).trans haccepted

end Database
end RelStore
