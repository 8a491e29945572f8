import RelStore.Proofs.Database.Execute
import RelStore.Proofs.Database.Names

/-! Opening a database again between statements: nothing that is in memory is lost, and no
later answer tells that it was opened again. -/
namespace RelStore

namespace Trace

/-- How often a run asked whether to go on. -/
def polls (t : Trace) : Nat := t.countP (· == .poll)

/-- Traces in which a run asked equally often. -/
def EqualPolls (t t' : Trace) : Prop := t.polls = t'.polls

theorem polls_event (e : Event) (t : Trace) : polls (.event e :: t) = polls t := by
  rw [polls, List.countP_cons_of_neg (by simp)]
  rfl

theorem grows_equalPolls : Grows EqualPolls := by
  intro s t t' h
  have hcount : t.countP (· == .poll) = t'.countP (· == .poll) := h
  show List.countP _ _ = List.countP _ _
  rw [List.countP_cons, List.countP_cons, hcount]

theorem ignoresLoads_equalPolls : IgnoresLoads EqualPolls := by
  intro name n t t' h
  constructor
  · exact (polls_event _ t).trans h
  · exact Eq.trans h (polls_event _ t').symm

end Trace

def Signal.atPolls (stop : Nat → Bool) : Signal := fun t => stop t.polls

theorem Signal.respects_atPolls (stop : Nat → Bool) :
    (Signal.atPolls stop).Respects Trace.EqualPolls := fun _ _ h => congrArg stop h

namespace Database

/-- What is done with a database over time. -/
inductive Act where
  /-- A text is run as a statement, and told to stop at chosen ones of its polls. -/
  | execute (text : String) (stop : Nat → Bool)
  /-- The database is given up and its directory opened again. -/
  | reopen

def Act.isExecute : Act → Bool
  | execute .. => true
  | reopen => false

/-- The answer to a statement, and the database after it. Its trace begins with it. -/
def submit (db : Database) (text : String) (stop : Nat → Bool) :
    Except Error Outcome × Database :=
  (execute text (.atPolls stop)).run.run { db with trace := [] }

/-- The database that is opened on the directory of another one. -/
def reopen (db : Database) : Except Error Unit × Database := start.run.run db

def after (db : Database) : List Act → Database
  | [] => db
  | .execute text stop :: rest => (db.submit text stop).2.after rest
  | .reopen :: rest => db.reopen.2.after rest

/-- What is seen from outside while acts are done: the answer to each statement, and the
names of the tables after it. -/
def views (db : Database) : List Act → List (Except Error Outcome × Except Error (List String))
  | [] => []
  | .execute text stop :: rest =>
    let next := db.submit text stop
    (next.1, next.2.tableNames) :: next.2.views rest
  | .reopen :: rest => db.reopen.2.views rest

def opened (settings : Settings) : Database := (reopen ⟨settings, [], .empty, []⟩).2

abbrev Twins : Database → Database → Prop := Same Trace.EqualPolls

variable {db db' : Database}

theorem reopen_eq (h : IsClean db.disk) :
    db.reopen = (.ok (), { db with
      loaded := []
      trace := .event (.opening db.settings.directory db.settings.durability.description) ::
        db.trace }) := by
  have hmake : db.disk.makeDirectory = some db.disk :=
    Disk.makeDirectory_eq_some_iff.2 (.inl ⟨h.root, rfl⟩)
  rw [reopen, start, run_bind, run_get]
  simp only [run_bind, run_report, connect, run_get, hmake]
  rfl

theorem coherent_opened (settings : Settings) : (opened settings).Coherent := by
  rw [opened, reopen_eq isClean_empty]
  exact ⟨isClean_empty, nofun⟩

theorem Coherent.twins (h : db.Coherent) : Twins db db :=
  ⟨rfl, rfl, rfl, .inr rfl, h, h⟩

theorem Same.reopen_left (h : Twins db db') : Twins db.reopen.2 db' := by
  rw [reopen_eq h.left.clean]
  refine ⟨h.settings, h.disk, ?_, .inl Trace.ignoresLoads_equalPolls, ?_, h.right⟩
  · exact (Trace.polls_event _ db.trace).trans h.trace
  · exact h.left.forget.with_trace _

/-- A statement gets the same answer. -/
theorem Same.submit (h : Twins db db') (text : String) (stop : Nat → Bool) :
    (db.submit text stop).1 = (db'.submit text stop).1 ∧
      Twins (db.submit text stop).2 (db'.submit text stop).2 := by
  have hexecute := alike_execute Trace.grows_equalPolls (Signal.respects_atPolls stop) text
  have hbegin : Twins { db with trace := [] } { db' with trace := [] } := h.with_trace rfl
  obtain ⟨r, db₁, db₁', hrun, hrun', hend⟩ := hexecute _ _ hbegin
  rw [Database.submit, Database.submit, hrun, hrun']
  refine ⟨rfl, ?_⟩
  cases r with
  | ok answer => exact hend
  | error e => exact hend

theorem Same.tableNames (h : Twins db db') : db.tableNames = db'.tableNames := by
  rw [h.left.tableNames, h.right.tableNames, h.left.fileNames, h.right.fileNames, h.disk]

theorem Same.after (h : Twins db db') (acts : List Act) :
    Twins (db.after acts) (db'.after (acts.filter Act.isExecute)) := by
  induction acts generalizing db db' with
  | nil => exact h
  | cons a rest ih =>
    cases a with
    | execute text stop => exact ih (h.submit text stop).2
    | reopen => exact ih h.reopen_left

theorem Same.views (h : Twins db db') (acts : List Act) :
    db.views acts = db'.views (acts.filter Act.isExecute) := by
  induction acts generalizing db db' with
  | nil => rfl
  | cons a rest ih =>
    cases a with
    | execute text stop =>
      obtain ⟨hanswer, hnext⟩ := h.submit text stop
      rw [List.filter_cons_of_pos rfl, Database.views, Database.views]
      simp only [hanswer, hnext.tableNames, ih hnext]
    | reopen => exact ih h.reopen_left

/-- From an empty directory on, after any statements, whatever they answered and wherever
they were stopped, every table in memory is what is loaded from its file. So it makes no
difference to any answer where in between the database is opened again. -/
theorem restart_transparent (settings : Settings) (acts : List Act) :
    ((opened settings).after acts).reopen.1 = .ok () ∧
      (∀ name t, ((opened settings).after acts).loaded.lookup name = some t →
        ((opened settings).after acts).hasFile name = true ∧
          ((load name).run.run ((opened settings).after acts)).1 = .ok t) ∧
      (opened settings).views acts = (opened settings).views (acts.filter Act.isExecute) := by
  have hopened := (coherent_opened settings).twins
  have h := (hopened.after acts).left
  refine ⟨?_, ?_, hopened.views acts⟩
  · rw [reopen_eq h.clean]
  · intro name t hl
    obtain ⟨rfl, ht, hd⟩ := h.loaded name t hl
    constructor
    · rw [hasFile, Disk.isFile, h.clean.find_tableFile ht hd]
    · rw [run_load, readTable_of_holds h.clean ht hd]

def visit : List Act :=
  let go := fun _ => false
  [.execute "CREATE TABLE a (k INT PRIMARY KEY, n INT)" go,
    .execute "INSERT INTO a VALUES (1, 2)" go, .reopen,
    .execute "DELETE FROM a WHERE n = 2" fun polls => polls == 2, .reopen,
    .execute "SELECT * FROM a" go]

theorem restart_transparent_visit :
    (∃ t, ((opened default).after (visit.take 2)).loaded.lookup "a" = some t ∧
      ((load "a").run.run ((opened default).after (visit.take 2))).1 = .ok t) ∧
    (opened default).views visit =
      [(.ok (.created "a"), .ok ["a"]), (.ok .inserted, .ok ["a"]), (.error .cancelled, .ok ["a"]),
        (.ok (.selected ["k", "n"] [[.int 1, .int 2]]), .ok ["a"])] := by
  constructor
  · have hsome : (((opened default).after (visit.take 2)).loaded.lookup "a").isSome = true := by
      decide +kernel
    obtain ⟨t, ht⟩ := Option.isSome_iff_exists.1 hsome
    exact ⟨t, ht, ((restart_transparent default (visit.take 2)).2.1 "a" t ht).2⟩
  · rw [(restart_transparent default visit).2.2]
    decide +kernel

end Database
end RelStore
