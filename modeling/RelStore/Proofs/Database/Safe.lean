import RelStore.Proofs.Database.Assign
import RelStore.Proofs.Database.Ensures
import RelStore.Proofs.Database.Found
import RelStore.Proofs.Database.Statements
import RelStore.Proofs.Document.Valid
import RelStore.Proofs.Plan.InRange

/-! Statements on sound tables, whatever the files hold: the tables in memory stay sound,
each under its own name, and nothing is read beyond the end of a list. -/
namespace RelStore

namespace Database
variable {α β : Type} {A : α → Prop} {C : β → Prop} {name : String} {t u : Table} {row : Row}
  {signal : Signal}

def Registered (db : Database) : Prop :=
  ∀ name t, db.loaded.lookup name = some t → t.IsSound name

theorem blind_registered : Blind Registered := fun _ _ h => h

/-- With sound tables in memory, and leaving such, an action answers as `A` says, or fails
without having read beyond the end of a list. -/
def Safe (x : Action α) (A : α → Prop) : Prop :=
  Ensures Registered x (fun a db => A a ∧ Registered db) fun e db => e.InRange ∧ Registered db

theorem Safe.bind {x : Action α} {f : α → Action β} (hx : Safe x A) (hf : ∀ a, A a → Safe (f a) C) :
    Safe (x >>= f) C :=
  Ensures.bind hx fun a => .of_common (fun _ h => h.1) fun ha =>
    (hf a ha).strengthen fun _ h => h.2

theorem Safe.tryCatch {x : Action α} {f : Error → Action α} (hx : Safe x A)
    (hf : ∀ e, e.InRange → Safe (f e) A) : Safe (tryCatch x f) A :=
  Ensures.tryCatch hx fun e => .of_common (fun _ h => h.1) fun he =>
    (hf e he).strengthen fun _ h => h.2

theorem safe_pure {a : α} (h : A a) : Safe (pure a) A := ensures_pure fun _ hdb => ⟨h, hdb⟩

theorem safe_throw {e : Error} (h : e.InRange) : Safe (throw e : Action α) A :=
  ensures_throw fun _ hdb => ⟨h, hdb⟩

theorem safe_lift {x : Except Error α} (h : Meets A Error.InRange x) : Safe (liftM x) A :=
  ensures_lift h fun _ _ he hdb => ⟨he, hdb⟩

theorem safe_watch {w : Watched α} (h : w.Ensures A Error.InRange) : Safe (watch w) A :=
  ensures_watch blind_registered h fun _ _ he hdb => ⟨he, hdb⟩

theorem safe_get {f : Database → Action α} (hf : ∀ db, Safe (f db) A) : Safe (get >>= f) A :=
  ensures_get hf

theorem safe_set {db : Database} (h : db.Registered) : Safe (set db) fun _ => True :=
  fun _ _ => ⟨trivial, h⟩

theorem safe_modify {f : Database → Database} (hf : ∀ db, Registered db → Registered (f db)) :
    Safe (modify f) fun _ => True := ensures_modify fun db h => ⟨trivial, hf db h⟩

theorem safe_report (e : Event) : Safe (report e) fun _ => True :=
  (ensures_report blind_registered e).weaken fun _ _ h => ⟨trivial, h⟩

theorem safe_reportAll (es : List Event) : Safe (reportAll es) fun _ => True :=
  (ensures_reportAll blind_registered es).weaken fun _ _ h => ⟨trivial, h⟩

theorem safe_poll (signal : Signal) : Safe (poll signal) fun _ => True :=
  (ensures_poll blind_registered fun _ h => ⟨nofun, h⟩).weaken fun _ _ h => ⟨trivial, h⟩

theorem safe_save (t : Table) : Safe (save t) fun _ => True :=
  (ensures_save (fun _ _ _ h => h) fun _ h => ⟨nofun, h⟩).weaken fun _ _ h => ⟨trivial, h⟩

theorem Registered.put {db : Database} (h : db.Registered) (ht : t.IsSound name) (trace : Trace) :
    Registered { db with loaded := putTable name t db.loaded, trace } := by
  intro n u hu
  rw [lookup_putTable] at hu
  split at hu
  · rename_i hn
    cases hu
    exact hn ▸ ht
  · exact h n u hu

theorem safe_keep (ht : t.IsSound name) : Safe (keep name t) fun _ => True :=
  safe_modify fun db h => h.put ht db.trace

theorem safe_drop (name : String) : Safe (drop name) fun _ => True := by
  refine safe_modify fun db h n u hu => ?_
  rw [lookup_drop] at hu
  split at hu
  · cases hu
  · exact h n u hu

/-- A changed table is kept and saved. -/
theorem safe_keep_save (hu : u.IsSound name) {a : α} (ha : A a) :
    Safe (do keep name u; save u; pure a) A :=
  (safe_keep hu).bind fun _ _ => (safe_save u).bind fun _ _ => safe_pure ha

/-- Whatever a file holds, a sound table of the name is read from it or none. -/
theorem meets_readTable (settings : Settings) (disk : Disk) (name : String) :
    Meets (·.IsSound name) Error.InRange (readTable settings disk name) := by
  unfold readTable
  split
  · nofun
  · nofun
  · nofun
  · split
    · nofun
    · refine meets_iff.2 ⟨fun t ht => ?_, fun e he => ?_⟩
      · obtain ⟨rows, -, hsound, -⟩ := Document.valid_of_toTable ht
        exact hsound
      · rw [Error.InRange, Document.errorClass_of_toTable he]
        decide

theorem safe_table (name : String) : Safe (table name) (·.IsSound name) := by
  intro db h
  rw [run_table]
  cases hl : db.loaded.lookup name with
  | some t => exact ⟨h name t hl, h⟩
  | none =>
    have hread := meets_readTable db.settings db.disk name
    cases hr : readTable db.settings db.disk name with
    | error e =>
      rw [hr] at hread
      exact ⟨hread, h⟩
    | ok t =>
      rw [hr] at hread
      exact ⟨hread, h.put hread _⟩

/-- What is found beside sound tables is sound. -/
theorem Registered.isSound_of_found {db : Database} (h : db.Registered)
    (hf : db.found name = .ok t) : t.IsSound name :=
  ((safe_table name).of_ok h (Prod.ext hf rfl)).1

/-- Another error may be reported for a table that is not found. -/
theorem safe_tableOr (name : String) {other : Error} (ho : other.InRange) :
    Safe (tryCatch (table name) fun e =>
      if e.errorClass = .tableNotFound then throw other else throw e) (·.IsSound name) := by
  refine (safe_table name).tryCatch fun e he => ?_
  split
  · exact safe_throw ho
  · exact safe_throw he

theorem safe_planTable (name : String) : Safe (planTable name) (·.IsSound name) :=
  safe_tableOr name nofun

theorem safe_joinTable (j? : Option Join) :
    Safe (joinTable j?) fun r => ∀ j u, r = some (j, u) → u.Sound := by
  cases j? with
  | none => exact safe_pure nofun
  | some j =>
    refine (safe_planTable j.table).bind fun t ht => safe_pure fun j' u hu => ?_
    cases hu
    exact ht.sound

theorem safe_plan (q : Query) : Safe (plan q) Plan.Fits := by
  rw [plan_eq]
  refine (safe_planTable q.table).bind fun left hleft => ?_
  refine (safe_joinTable q.join).bind fun right hright => ?_
  refine (safe_lift (Plan.meets_choose q hleft.sound hright)).bind fun r hr => ?_
  exact (safe_reportAll r.2).bind fun _ _ => safe_pure hr

theorem safe_planOf (s : Statement) : Safe (planOf s) Plan.Fits := by
  cases s with
  | select q => exact safe_plan q
  | _ => exact safe_throw nofun

theorem meets_resolve (h : Heading) (name : String) :
    Meets (· < h.length) Error.InRange (h.resolve name) := by
  refine meets_iff.2 ⟨fun i hi => ?_, fun e he => ?_⟩
  · exact Heading.resolve?_lt (Heading.resolve_eq_ok_iff.1 hi)
  · unfold Heading.resolve at he
    split at he <;> cases he <;> nofun

theorem meets_resolveAll (h : Heading) (names : List String) :
    Meets (fun is => ∀ i ∈ is, i < h.length) Error.InRange (resolveAll h names) := by
  induction names with
  | nil => nofun
  | cons name rest ih =>
    refine (meets_resolve h name).bind fun i hi => ih.bind fun is his => ?_
    exact List.forall_mem_cons.2 ⟨hi, his⟩

theorem meets_projectAll {rows : List Row} {is : List Nat} {n : Nat} (hrows : Plan.HasWidth n rows)
    (his : ∀ i ∈ is, i < n) : Meets (fun _ => True) Error.InRange (projectAll is rows) := by
  rw [projectAll_eq hrows his]
  trivial

theorem safe_select (q : Query) (signal : Signal) : Safe (select q signal) fun _ => True := by
  refine (safe_plan q).bind fun p hp => ?_
  refine (safe_watch (Plan.ensures_run hp)).bind fun rows hrows => ?_
  split
  · exact safe_pure trivial
  · refine (safe_lift (meets_resolveAll p.heading _)).bind fun is his => ?_
    exact (safe_lift (meets_projectAll hrows his)).bind fun _ _ => safe_pure trivial

theorem meets_insert (h : t.IsSound name) (row : Row) :
    Meets (·.IsSound name) Error.InRange (t.insert row) := by
  refine meets_iff.2 ⟨fun u hu => ?_, fun e he => h.sound.errorClass_of_insert he⟩
  exact h.of_schema (h.sound.insert hu) (Table.insert_schema hu)

theorem safe_insertKept (name : String) (row : Row) :
    Safe (insertKept name row) (·.IsSound name) := by
  refine (safe_table name).bind fun t ht => ?_
  refine (safe_lift (meets_insert ht row)).bind fun u hu => ?_
  exact (safe_keep hu).bind fun _ _ => safe_pure hu

theorem safe_insert (name : String) (row : Row) : Safe (insert name row) fun _ => True :=
  (safe_insertKept name row).bind fun u _ => (safe_save u).bind fun _ _ => safe_pure trivial

theorem safe_changeRow {changed : Except Error Table}
    (hc : Meets (·.IsSound name) Error.InRange changed) :
    Safe (changeRow name t changed) fun _ => True := by
  unfold changeRow
  cases changed with
  | ok u => exact safe_keep_save hc trivial
  | error e =>
    show Safe (if e.errorClass = .rowNotFound then _ else _) _
    split
    · exact (safe_save t).bind fun _ _ => safe_pure trivial
    · exact safe_throw hc

theorem ensures_matchingKeys (h : Heading) (c : Condition) (entries : List (Value × Row)) :
    (matchingKeys signal h c entries).Ensures (fun _ => True) Error.InRange := by
  induction entries with
  | nil => exact Watched.ensures_pure trivial
  | cons e rest ih =>
    refine (Watched.ensures_poll nofun).bind fun _ _ => ih.bind fun _ _ => ?_
    exact Watched.ensures_pure trivial

/-- A sweep of changes that are no faults is no fault. -/
theorem meets_sweep {I : Table → Prop} {step : Table → Value → Except Error Table}
    (hstep : ∀ u key, I u → Meets I Error.InRange (step u key)) (signal : Signal)
    (change : Change) (keys : List Value) (p : Progress) (hp : I p.table) :
    Meets (fun _ => True) Error.InRange (sweep signal change step keys p).1 := by
  have hI : ∀ u key u', I u → step u key = .ok u' → I u' := fun u key u' hu hk =>
    (meets_iff.1 (hstep u key hu)).1 u' hk
  refine meets_iff.2 ⟨fun _ _ => trivial, fun e he => ?_⟩
  rcases error_of_sweep hI hp (Prod.ext he rfl) with rfl | ⟨-, u, key, hu, hkey⟩
  · rintro ⟨⟩
  · exact (meets_iff.1 (hstep u key hu)).2 e hkey

theorem safe_settle {result : Except Error Unit} (hr : Meets (fun _ => True) Error.InRange result)
    (hu : u.IsSound name) (n : Nat) : Safe (settle name result u n) fun _ => True := by
  unfold settle
  cases result with
  | ok _ => exact safe_keep_save hu trivial
  | error e =>
    by_cases hn : 0 < n
    · simp only [hn, if_true]
      exact (safe_keep hu).bind fun _ _ => (safe_save u).bind fun _ _ => safe_throw hr
    · simp only [hn, if_false]
      exact (safe_keep hu).bind fun _ _ => safe_throw hr

def Follows (s : Schema) (name : String) (t : Table) : Prop := t.IsSound name ∧ t.schema = s

theorem meets_attempt {s : Schema} {call : Value → Table.Call} (hc : Table.RowChange s call)
    (key : Value) (h : Follows s name t) :
    Meets (Follows s name) Error.InRange (t.attempt (call key)) := by
  refine meets_iff.2 ⟨fun u hu => ?_, fun _ he => hc.refused h.1.sound h.2 he⟩
  have hs := Table.attempt_schema hu
  exact ⟨h.1.of_schema (h.1.sound.attempt hu) hs, hs.trans h.2⟩

theorem safe_changeRows {call : Value → Table.Call} (hc : Table.RowChange t.schema call)
    (ht : t.IsSound name) (change : Change) (c : Condition) :
    Safe (changeRows signal change name t c fun t key => t.attempt (call key)) fun _ => True := by
  rw [changeRows_eq]
  refine (safe_watch (ensures_matchingKeys _ c t.entries)).bind fun keys _ => safe_get fun db => ?_
  -- the schema stays, so that what the assignments were resolved to stays in range
  have hp : Follows t.schema name t := ⟨ht, rfl⟩
  have hstep : ∀ u key, Follows t.schema name u →
      Meets (Follows t.schema name) Error.InRange (u.attempt (call key)) :=
    fun u key hu => meets_attempt hc key hu
  have hresult := meets_sweep hstep signal change keys ⟨t, 0, db.trace⟩ hp
  have hkeeps := sweep_keeps (fun u key u' hu hk => (meets_iff.1 (hstep u key hu)).1 u' hk) signal
    change keys ⟨t, 0, db.trace⟩ hp
  rcases hsweep : sweep signal change (fun u key => u.attempt (call key)) keys ⟨t, 0, db.trace⟩
    with ⟨result, p⟩
  rw [hsweep] at hresult hkeeps
  have hmodify : Safe (modify fun db => { db with trace := p.trace }) fun _ => True :=
    safe_modify fun _ h => h
  exact hmodify.bind fun _ _ => safe_settle hresult hkeeps.1.1 p.count

theorem meets_resolveAssignments (t : Table) (assignments : List (String × Value)) :
    Meets (fun changes => ∀ c ∈ changes, c.1 < t.schema.columns.length) Error.InRange
      (resolveAssignments t assignments) := by
  induction assignments with
  | nil => nofun
  | cons a rest ih =>
    refine (meets_resolve (.ofSchema t.schema) a.1).bind fun i hi => ?_
    obtain ⟨c, hc⟩ := Schema.columnAt_exists hi
    rw [hc, ok_bind]
    refine (meets_ensure nofun).bind fun _ _ => ih.bind fun changes hchanges => ?_
    rw [Heading.length_ofSchema] at hi
    exact List.forall_mem_cons.2 ⟨hi, hchanges⟩

theorem safe_update (name : String) (assignments : List (String × Value)) (c : Condition)
    (signal : Signal) : Safe (update name assignments c signal) fun _ => True := by
  refine (safe_table name).bind fun t ht => ?_
  refine (safe_lift (meets_resolveAssignments t assignments)).bind fun changes hchanges => ?_
  have hc : Table.RowChange t.schema fun key => .edit key (assign changes) :=
    rowChange_assign hchanges
  split
  · rename_i key _
    have hrow := (meets_attempt hc key ⟨ht, rfl⟩).mono (fun _ h => h.1) fun _ h => h
    exact (safe_changeRow hrow).bind fun _ _ => safe_pure trivial
  · exact (safe_changeRows hc ht .update c).bind fun _ _ => safe_pure trivial

theorem safe_delete (name : String) (c : Condition) (signal : Signal) :
    Safe (delete name c signal) fun _ => True := by
  refine (safe_table name).bind fun t ht => ?_
  have hc := Table.rowChange_erase t.schema
  split
  · rename_i key _
    have hrow := (meets_attempt hc key ⟨ht, rfl⟩).mono (fun _ h => h.1) fun _ h => h
    exact (safe_changeRow hrow).bind fun _ _ => safe_pure trivial
  · exact (safe_changeRows hc ht .delete c).bind fun _ _ => safe_pure trivial

theorem meets_checkName (thing name : String) :
    Meets (fun _ => True) Error.InRange (checkName thing name) :=
  (meets_ensure nofun).mono (fun _ _ => trivial) fun _ h => h

theorem meets_checkNames (columns : List Column) :
    Meets (fun _ => True) Error.InRange (checkNames columns) := by
  induction columns with
  | nil => trivial
  | cons c rest ih => exact (meets_checkName "column" c.name).bind fun _ _ => ih

theorem meets_createTable {s : Schema} (hs : s.Listed) :
    Meets (fun t => t.IsSound s.name) Error.InRange (Table.create s) := by
  refine meets_iff.2 ⟨fun t ht => ⟨?_, Table.create_sound ht⟩, fun e he => ?_⟩
  · obtain ⟨-, i, -, rfl⟩ := Table.create_eq_ok_iff.1 ht
    rfl
  · cases hcheck : s.check with
    | error e' =>
      rw [Table.create, hcheck] at he
      cases he
      exact hs.errorClass_of_check hcheck
    | ok _ =>
      obtain ⟨t, ht, -⟩ := Table.create_exists hcheck
      rw [ht] at he
      cases he

theorem safe_create {s : Schema} (hs : s.Listed) : Safe (create s) fun _ => True := by
  unfold create
  refine (safe_lift (meets_checkName "table" s.name)).bind fun _ _ => ?_
  refine (safe_lift (meets_checkNames s.columns)).bind fun _ _ => ?_
  refine (safe_lift (meets_createTable hs)).bind fun t ht => safe_get fun db => ?_
  cases db.hasTable t.name with
  | true => exact safe_throw nofun
  | false =>
    have htry : Safe (trySave t) fun _ => True :=
      (safe_save t).tryCatch fun e he => (safe_drop t.name).bind fun _ _ => safe_throw he
    refine (safe_keep ⟨rfl, ht.sound⟩).bind fun _ _ => htry.bind fun _ _ => ?_
    exact (safe_report _).bind fun _ _ => safe_pure trivial

theorem safe_createTable (name : String) (columns : List Column) (ifAbsent : Bool) :
    Safe (createTable name columns ifAbsent) fun _ => True := by
  unfold createTable
  refine safe_get fun db => ?_
  split
  · exact safe_pure trivial
  · have hcreate : Safe (do
        let _ ← create (.ofColumns name columns)
        pure (.created name)) fun (_ : Outcome) => True :=
      (safe_create (Schema.listed_ofColumns name columns [])).bind fun _ _ => safe_pure trivial
    refine hcreate.tryCatch fun e he => ?_
    split
    · exact safe_pure trivial
    · exact safe_throw he

theorem safe_run (s : Statement) (signal : Signal) : Safe (run s signal) fun _ => True := by
  refine (safe_poll signal).bind fun _ _ => ?_
  cases s with
  | select q => exact safe_select q signal
  | insert name row => exact safe_insert name row
  | update name assignments c => exact safe_update name assignments c signal
  | delete name c => exact safe_delete name c signal
  | create name columns ifAbsent => exact safe_createTable name columns ifAbsent

/-- A text that is no statement is reported as such. -/
theorem meets_ofTokens (ts : List Token) :
    Meets (fun _ => True) Error.InRange (Statement.ofTokens ts) := by
  unfold Statement.ofTokens
  split <;> first | trivial | nofun

theorem safe_execute (text : String) (signal : Signal) :
    Safe (execute text signal) fun _ => True := by
  refine (safe_poll signal).bind fun _ _ => ?_
  exact (safe_lift (meets_ofTokens (Token.scan text))).bind fun s _ => safe_run s signal

theorem meets_anyCell {i n : Nat} {v : Value} {rows : List Row} (hrows : Plan.HasWidth n rows)
    (hi : i < n) : Meets (fun _ => True) Error.InRange (anyCell i v rows) := by
  induction rows with
  | nil => trivial
  | cons row rest ih =>
    obtain ⟨hrow, hrest⟩ := List.forall_mem_cons.1 hrows
    have hcell : row[i]? = some row[i] := List.getElem?_eq_getElem (hrow ▸ hi)
    rw [anyCell, Row.cell_eq_ok_iff.2 hcell, ok_bind]
    split
    · trivial
    · exact ih hrest

theorem meets_hasValue (h : t.Sound) (column : String) (v : Value) :
    Meets (fun _ => True) Error.InRange (hasValue t column v) := by
  have hindex : Meets (fun _ => True) Error.InRange (t.hasIndex column) := by
    obtain ⟨c?, hc, -⟩ := h.listed.column?_eq column
    rw [Table.hasIndex, hc, ok_bind]
    cases c? <;> trivial
  refine hindex.bind fun indexed _ => ?_
  cases indexed with
  | true => exact (Plan.meets_find h column v).bind fun _ _ => trivial
  | false =>
    rw [if_neg Bool.false_ne_true]
    split
    · rintro ⟨⟩
    · rename_i i hi
      -- names are looked up in a list of their own, which is that of the columns
      rw [h.listed.position?] at hi
      obtain ⟨hlt, -, -⟩ := List.idxOf?_eq_some_iff.1 hi
      refine meets_anyCell (fun row hrow => Plan.length_of_mem_allRows h hrow) ?_
      rw [Heading.length_ofSchema]
      simpa [Schema.columnNames] using hlt

theorem safe_checkParents (name : String) (s : Schema) (row : Row) (keys : List ForeignKey) :
    Safe (checkParents name s row keys) fun _ => True := by
  induction keys with
  | nil => exact safe_pure trivial
  | cons k rest ih =>
    rw [checkParents]
    split
    · exact safe_throw nofun
    · split
      · exact safe_throw nofun
      · rename_i v _
        refine (safe_tableOr k.parent ?_).bind fun parent hp => ?_
        · rintro ⟨⟩
        refine (safe_lift (meets_hasValue hp.sound k.parentColumn v)).bind fun found _ => ?_
        cases found with
        | true => exact ih
        | false => exact safe_throw nofun

theorem safe_checkForeignKeys (name : String) (row : Row) :
    Safe (checkForeignKeys name row) fun _ => True :=
  (safe_table name).bind fun t _ => safe_checkParents name t.schema row t.schema.foreignKeys

theorem safe_start : Safe start fun _ => True := by
  refine safe_get fun db => (safe_report _).bind fun _ _ => safe_get fun db => ?_
  split
  · exact safe_set nofun
  · exact safe_throw nofun

theorem registered_forum : forum.Registered := by
  intro name t h
  obtain ⟨s, hs⟩ := forum_allReachable name t h
  refine ⟨?_, hs.sound⟩
  have hmem : (name, t) ∈ forum.loaded := by
    obtain ⟨l₁, l₂, hl, -⟩ := List.lookup_eq_some_iff.1 h
    simp [hl]
  simp only [forum, List.mem_cons, List.not_mem_nil, or_false, Prod.mk.injEq] at hmem
  rcases hmem with ⟨rfl, rfl⟩ | ⟨rfl, rfl⟩ <;> rfl

end Database
end RelStore
