import RelStore.Proofs.Database.Safe

/-! Requests to a database whose files anyone may change: whatever was asked before, the
tables in memory are sound, each under its own name. -/
namespace RelStore

/-- What a database is asked to do, or what others do to its files. -/
inductive Request where
  | execute (text : String) (signal : Signal)
  | run (s : Statement) (signal : Signal)
  | plan (s : Statement)
  | load (name : String)
  | create (name : String) (columns : List Column) (keys : List ForeignKey)
  | insert (name : String) (row : Row)
  | checkForeignKeys (name : String) (row : Row)
  | reopen
  | replaceFiles (disk : Disk)

def Request.action : Request → Action Unit
  | execute text signal => do
    let _ ← Database.execute text signal
    pure ()
  | run s signal => do
    let _ ← Database.run s signal
    pure ()
  | plan s => do
    let _ ← Database.planOf s
    pure ()
  | load name => do
    let _ ← Database.table name
    pure ()
  | create name columns keys => do
    let _ ← Database.create ((Schema.ofColumns name columns).withForeignKeys keys)
    pure ()
  | insert name row => do
    let _ ← Database.insertKept name row
    pure ()
  | checkForeignKeys name row => Database.checkForeignKeys name row
  | reopen => Database.start
  | replaceFiles disk => modify fun db => { db with disk }

namespace Database
variable {α : Type} {A : α → Prop}

def fresh (settings : Settings) (disk : Disk) : Database := ⟨settings, [], disk, []⟩

/-- The database after some requests, whatever became of them. -/
def afterRequests (db : Database) : List Request → Database
  | [] => db
  | r :: rest => (r.action.run.run db).2.afterRequests rest

/-- The requests keep the tables in memory sound, and never fail with a fault. -/
theorem safe_request (r : Request) : Safe r.action fun _ => True := by
  have hforget : ∀ {α : Type} {A : α → Prop} {x : Action α}, Safe x A →
      Safe (do let _ ← x; pure ()) fun _ => True :=
    fun hx => hx.bind fun _ _ => safe_pure trivial
  cases r with
  | execute text signal => exact hforget (safe_execute text signal)
  | run s signal => exact hforget (safe_run s signal)
  | plan s => exact hforget (safe_planOf s)
  | load name => exact hforget (safe_table name)
  | create name columns keys =>
    exact hforget (safe_create (Schema.listed_ofColumns name columns keys))
  | insert name row => exact hforget (safe_insertKept name row)
  | checkForeignKeys name row => exact safe_checkForeignKeys name row
  | reopen => exact safe_start
  | replaceFiles disk => exact safe_modify fun _ h => h

theorem Safe.registered {x : Action α} (hx : Safe x A) {db : Database} (h : db.Registered) :
    (x.run.run db).2.Registered := by
  rcases hrun : x.run.run db with ⟨e | a, db'⟩
  · exact (hx.of_error h hrun).2
  · exact (hx.of_ok h hrun).2

theorem registered_afterRequests {db : Database} (h : db.Registered) (rs : List Request) :
    (db.afterRequests rs).Registered := by
  induction rs generalizing db with
  | nil => exact h
  | cons r rest ih => exact ih ((safe_request r).registered h)

theorem registered_fresh (settings : Settings) (disk : Disk) : (fresh settings disk).Registered :=
  nofun

end Database
end RelStore
