import RelStore.Proofs.Database.Loads

/-! Statements that are rejected: those that cannot be read or planned, that break a
constraint, or that name what is not there. They change nothing; at most some tables were
loaded from their files. -/
namespace RelStore

/-- The statement is at fault, and not the files, the caller or the program. -/
def Error.IsRejection (e : Error) : Prop := e.kind ∈ [.parse, .plan, .constraint, .notFound]

instance (e : Error) : Decidable e.IsRejection := inferInstanceAs (Decidable (_ ∈ _))

theorem Database.not_isRejection_of_sweep {signal : Signal} {change : Change}
    {step : Table → Value → Except Error Table} {keys : List Value} {p p' : Progress} {e : Error}
    (h : sweep signal change step keys p = (.error e, p')) : ¬ e.IsRejection := by
  have hany : ∀ u key u', True → step u key = .ok u' → True := fun _ _ _ _ _ => trivial
  rcases error_of_sweep hany trivial h with rfl | ⟨hfault, -⟩
  · decide
  · simp [Error.IsRejection, Error.kind, hfault, ErrorClass.kind]

namespace Database
variable {α : Type} {db₀ db db' : Database} {name : String} {t u : Table} {e : Error}
  {signal : Signal}

/-- If an error is a rejection, then only tables were loaded. -/
def Spares (db₀ : Database) (e : Error) (db : Database) : Prop := e.IsRejection → OnlyLoads db₀ db

theorem spares_of_onlyLoads (h : OnlyLoads db₀ db) : Spares db₀ e db := fun _ => h

theorem Loads.spares {x : Action α} (hx : Loads x) :
    Ensures (OnlyLoads db₀) x (fun _ => OnlyLoads db₀) (Spares db₀) :=
  (hx db₀).mono (fun _ h => h) (fun _ _ h => h) fun _ _ h => spares_of_onlyLoads h

def Insists (x : Action α) : Prop :=
  Ensures (fun _ => True) x (fun _ _ => True) fun e _ => ¬ e.IsRejection

theorem Insists.spares {x : Action α} {P : Database → Prop} (hx : Insists x) :
    Ensures P x (fun _ _ => True) (Spares db₀) :=
  hx.mono (fun _ _ => trivial) (fun _ _ h => h) fun _ _ h he => absurd he h

theorem Insists.bind {β : Type} {x : Action α} {f : α → Action β} (hx : Insists x)
    (hf : ∀ a, Insists (f a)) : Insists (x >>= f) := Ensures.bind hx hf

theorem insists_save (t : Table) : Insists (save t) :=
  ensures_save (fun _ _ _ h => h) fun _ _ => by decide

theorem insists_keep (name : String) (t : Table) : Insists (keep name t) :=
  ensures_modify fun _ h => h

theorem insists_pure (a : α) : Insists (pure a) := ensures_pure fun _ h => h

theorem insists_keep_save (name : String) (u : Table) (a : α) :
    Insists (do keep name u; save u; pure a) :=
  (insists_keep name u).bind fun _ => (insists_save u).bind fun _ => insists_pure a

theorem insists_settle {result : Except Error Unit} {n : Nat}
    (h : ∀ e, result = .error e → ¬ e.IsRejection) : Insists (settle name result u n) := by
  unfold settle
  cases result with
  | ok _ => exact insists_keep_save name u n
  | error e =>
    have hthrow : Insists (throw e : Action Nat) := ensures_throw fun _ _ => h e rfl
    by_cases hn : 0 < n
    · simp only [hn, if_true]
      exact (insists_keep name u).bind fun _ => (insists_save u).bind fun _ => hthrow
    · simp only [hn, if_false]
      exact (insists_keep name u).bind fun _ => hthrow

theorem ensures_insert (row : Row) :
    Ensures (OnlyLoads db₀) (insert name row) (fun _ _ => True) (Spares db₀) := by
  rw [insert_eq]
  refine (loads_table name).spares.bind fun t => (loads_lift _).spares.bind fun u => ?_
  exact (insists_keep_save name u Outcome.inserted).spares

theorem ensures_changeRow (changed : Except Error Table) :
    Ensures (OnlyLoads db₀) (changeRow name t changed) (fun _ _ => True) (Spares db₀) := by
  unfold changeRow
  cases changed with
  | ok u => exact (insists_keep_save name u 1).spares
  | error e =>
    show Ensures _ (if e.errorClass = .rowNotFound then _ else _) _ _
    split
    · exact ((insists_save t).bind fun _ => insists_pure 0).spares
    · exact ensures_throw fun _ h => spares_of_onlyLoads h

theorem ensures_changeRows (change : Change) (c : Condition)
    (step : Table → Value → Except Error Table) :
    Ensures (OnlyLoads db₀) (changeRows signal change name t c step) (fun _ _ => True)
      (Spares db₀) := by
  rw [changeRows_eq]
  refine (loads_watch _).spares.bind fun keys => ensures_get fun db => Insists.spares ?_
  rcases hsweep : sweep signal change step keys ⟨t, 0, db.trace⟩ with ⟨result, p⟩
  refine Ensures.bind (ensures_modify fun _ h => h) fun _ => insists_settle fun e he => ?_
  exact not_isRejection_of_sweep (hsweep.trans (congrArg (·, p) he))

theorem ensures_update (assignments : List (String × Value)) (c : Condition) :
    Ensures (OnlyLoads db₀) (update name assignments c signal) (fun _ _ => True)
      (Spares db₀) := by
  refine (loads_table name).spares.bind fun t => ?_
  refine (loads_lift _).spares.bind fun changes => ?_
  split
  · exact (ensures_changeRow _).bind fun n => ensures_pure fun _ h => h
  · exact (ensures_changeRows _ _ _).bind fun n => ensures_pure fun _ h => h

theorem ensures_delete (c : Condition) :
    Ensures (OnlyLoads db₀) (delete name c signal) (fun _ _ => True) (Spares db₀) := by
  refine (loads_table name).spares.bind fun t => ?_
  split
  · exact (ensures_changeRow _).bind fun n => ensures_pure fun _ h => h
  · exact (ensures_changeRows _ _ _).bind fun n => ensures_pure fun _ h => h

/-- A new table that cannot be saved is dropped again, but that is no rejection. -/
theorem insists_trySave (t : Table) : Insists (trySave t) := by
  refine Ensures.tryCatch (insists_save t) fun e => ?_
  have hdrop : Ensures (fun _ => ¬ e.IsRejection) (drop t.name) (fun _ _ => ¬ e.IsRejection)
      fun e _ => ¬ e.IsRejection := ensures_modify fun _ h => h
  exact hdrop.bind fun _ => ensures_throw fun _ h => h

theorem ensures_create (s : Schema) :
    Ensures (OnlyLoads db₀) (create s) (fun _ _ => True) (Spares db₀) := by
  unfold create
  refine (loads_lift _).spares.bind fun _ => ?_
  refine (loads_lift _).spares.bind fun _ => ?_
  refine (loads_lift _).spares.bind fun t => ?_
  refine ensures_get fun db => ?_
  cases db.hasTable t.name with
  | true => exact ensures_throw fun _ h => spares_of_onlyLoads h
  | false =>
    have hreport : Insists (report (.created t.name t.schema.width)) :=
      ensures_report (fun _ _ h => h) _
    refine Insists.spares ((insists_keep t.name t).bind fun _ => ?_)
    exact (insists_trySave t).bind fun _ => hreport.bind fun _ => insists_pure t

theorem ensures_createTable (columns : List Column) (ifAbsent : Bool) :
    Ensures (OnlyLoads db₀) (createTable name columns ifAbsent) (fun _ _ => True)
      (Spares db₀) := by
  unfold createTable
  refine ensures_get fun db => ?_
  split
  · exact ensures_pure fun _ _ => trivial
  · have hcreate : Ensures (OnlyLoads db₀) (do
        let _ ← create (.ofColumns name columns)
        pure (.created name)) (fun (_ : Outcome) _ => True) (Spares db₀) :=
      (ensures_create _).bind fun _ => ensures_pure fun _ h => h
    refine hcreate.tryCatch fun e => ?_
    split
    · exact ensures_pure fun _ _ => trivial
    · exact ensures_throw fun _ h => h

theorem ensures_run (s : Statement) :
    Ensures (OnlyLoads db₀) (run s signal) (fun _ _ => True) (Spares db₀) := by
  refine (loads_poll signal).spares.bind fun _ => ?_
  cases s with
  | select q => exact (loads_select q signal).spares.weaken fun _ _ _ => trivial
  | insert name row => exact ensures_insert row
  | update name assignments c => exact ensures_update assignments c
  | delete name c => exact ensures_delete c
  | create name columns ifAbsent => exact ensures_createTable columns ifAbsent

theorem ensures_execute (text : String) :
    Ensures (OnlyLoads db₀) (execute text signal) (fun _ _ => True) (Spares db₀) := by
  refine (loads_poll signal).spares.bind fun _ => ?_
  exact (loads_lift _).spares.bind fun s => ensures_run s

/-- A statement that is rejected, on whatever grounds and wherever it was to be stopped,
leaves all files as they were, and in memory at most tables that it loaded from them on the
way. So every table is found as it was. -/
theorem execute_rejected {text : String} (h : (execute text signal).run.run db = (.error e, db'))
    (he : e.IsRejection) : OnlyLoads db db' ∧ ∀ n, db'.found n = db.found n := by
  have hloads : OnlyLoads db db' := (ensures_execute text).of_error (.refl db) h he
  exact ⟨hloads, hloads.untouched.found⟩

def shelved : Database :=
  (opened default).after [.execute "CREATE TABLE a (k INT PRIMARY KEY)" fun _ => false, .reopen]

/-- The first table of a join is loaded before the second one is missed. -/
theorem execute_rejected_join :
    ∃ db', (execute "SELECT * FROM a JOIN b ON a.k = b.k" .never).run.run shelved =
        (.error (.unknownTable "b"), db') ∧ OnlyLoads shelved db' ∧
      shelved.loaded.lookup "a" = none ∧ (db'.loaded.lookup "a").isSome = true := by
  have hrun : let r := (execute "SELECT * FROM a JOIN b ON a.k = b.k" .never).run.run shelved
      r.1 = .error (.unknownTable "b") ∧ (r.2.loaded.lookup "a").isSome = true := by
    decide +kernel
  have hnone : (shelved.loaded.lookup "a").isNone = true := by decide +kernel
  rcases h : (execute "SELECT * FROM a JOIN b ON a.k = b.k" .never).run.run shelved with ⟨r, db'⟩
  rw [h] at hrun
  obtain ⟨rfl, hsome⟩ := hrun
  have hloads := (execute_rejected h (by decide)).1
  exact ⟨db', rfl, hloads, Option.isNone_iff_eq_none.1 hnone, hsome⟩

end Database
end RelStore
