import RelStore.Proofs.Database.Ensures
import RelStore.Proofs.Database.Found

/-! Actions that only load tables from their files, as all do before they change anything. -/
namespace RelStore
namespace Database
variable {α β : Type} {db₀ db db' : Database} {name : String} {t : Table} {signal : Signal}

/-- The second database is the first one after some tables were loaded from their files. -/
structure OnlyLoads (db db' : Database) : Prop where
  settings : db'.settings = db.settings
  disk : db'.disk = db.disk
  memory : ∀ n, db'.loaded.lookup n = db.loaded.lookup n ∨
    ∃ t, db.loaded.lookup n = none ∧ ((load n).run.run db).1 = .ok t ∧
      db'.loaded.lookup n = some t

theorem OnlyLoads.refl (db : Database) : OnlyLoads db db := ⟨rfl, rfl, fun _ => .inl rfl⟩

theorem blind_onlyLoads : Blind (OnlyLoads db) := fun _ _ h => ⟨h.settings, h.disk, h.memory⟩

/-- No statement can tell that tables were loaded. -/
theorem OnlyLoads.untouched (h : OnlyLoads db db') : Untouched db db' := by
  refine ⟨h.settings, h.disk, fun n => ?_⟩
  rcases h.memory n with hsame | ⟨t, hnone, hload, hsome⟩
  · cases hl : db.loaded.lookup n with
    | some t => rw [found_of_lookup hl, found_of_lookup (hsame.trans hl)]
    | none =>
      rw [found_of_lookup_eq_none hl, found_of_lookup_eq_none (hsame.trans hl), h.settings, h.disk]
  · rw [found_of_lookup hsome, found_of_lookup_eq_none hnone, ← fst_run_load, hload]

def Loads (x : Action α) : Prop :=
  ∀ db₀, Ensures (OnlyLoads db₀) x (fun _ => OnlyLoads db₀) fun _ => OnlyLoads db₀

theorem Loads.bind {x : Action α} {f : α → Action β} (hx : Loads x) (hf : ∀ a, Loads (f a)) :
    Loads (x >>= f) := fun db₀ => (hx db₀).bind fun a => hf a db₀

theorem Loads.tryCatch {x : Action α} {f : Error → Action α} (hx : Loads x)
    (hf : ∀ e, Loads (f e)) : Loads (tryCatch x f) := fun db₀ =>
  (hx db₀).tryCatch fun e => hf e db₀

theorem loads_pure (a : α) : Loads (pure a) := fun _ => ensures_pure fun _ h => h

theorem loads_throw (e : Error) : Loads (throw e : Action α) := fun _ => ensures_throw fun _ h => h

/-- A computation apart from the database. -/
theorem loads_lift (x : Except Error α) : Loads (liftM x) := fun _ =>
  (ensures_lift_eq x fun _ _ h => h).weaken fun _ _ h => h.2

theorem loads_watch (w : Watched α) : Loads (watch w) := fun _ => blind_onlyLoads.ensures_watch w

theorem loads_report (e : Event) : Loads (report e) := fun _ => ensures_report blind_onlyLoads e

theorem loads_reportAll (es : List Event) : Loads (reportAll es) := fun _ =>
  ensures_reportAll blind_onlyLoads es

theorem loads_poll (signal : Signal) : Loads (poll signal) := fun _ =>
  ensures_poll blind_onlyLoads fun _ h => h

theorem loads_table (name : String) : Loads (table name) := by
  intro db₀ db h
  rw [run_table]
  cases hl : db.loaded.lookup name with
  | some t => exact h
  | none =>
    cases hr : readTable db.settings db.disk name with
    | error e => exact h
    | ok t =>
      refine ⟨h.settings, h.disk, fun n => ?_⟩
      by_cases hn : n = name
      · subst hn
        -- the name was free in memory all along, or the statement would have found it there
        have hnone : db₀.loaded.lookup n = none := by
          rcases h.memory n with hsame | ⟨u, -, -, hsome⟩
          · exact hsame.symm.trans hl
          · rw [hl] at hsome
            cases hsome
        refine .inr ⟨t, hnone, ?_, by rw [lookup_putTable, if_pos rfl]⟩
        rw [fst_run_load, ← h.settings, ← h.disk, hr]
      · rw [lookup_putTable, if_neg hn]
        exact h.memory n

/-- Another error may be reported for a table that is not found. -/
theorem loads_tableOr (name : String) (other : Error) :
    Loads (tryCatch (table name) fun e =>
      if e.errorClass = .tableNotFound then throw other else throw e) := by
  refine (loads_table name).tryCatch fun e => ?_
  split
  · exact loads_throw _
  · exact loads_throw _

theorem loads_planTable (name : String) : Loads (planTable name) := loads_tableOr name _

theorem loads_joinTable (j? : Option Join) : Loads (joinTable j?) := by
  cases j? with
  | none => exact loads_pure _
  | some j => exact (loads_planTable j.table).bind fun _ => loads_pure _

theorem loads_plan (q : Query) : Loads (plan q) := by
  rw [plan_eq]
  refine (loads_planTable q.table).bind fun left => (loads_joinTable q.join).bind fun right => ?_
  refine (loads_lift _).bind fun r => ?_
  exact (loads_reportAll r.2).bind fun _ => loads_pure _

theorem loads_planOf (s : Statement) : Loads (planOf s) := by
  cases s with
  | select q => exact loads_plan q
  | _ => exact loads_throw _

theorem loads_select (q : Query) (signal : Signal) : Loads (select q signal) := by
  refine (loads_plan q).bind fun p => (loads_watch _).bind fun rows => ?_
  split
  · exact loads_pure _
  · exact (loads_lift _).bind fun is => (loads_lift _).bind fun rows => loads_pure _

theorem loads_checkParents (name : String) (s : Schema) (row : Row) (keys : List ForeignKey) :
    Loads (checkParents name s row keys) := by
  induction keys with
  | nil => exact loads_pure _
  | cons k rest ih =>
    rw [checkParents]
    split
    · exact loads_throw _
    · split
      · exact loads_throw _
      · refine (loads_tableOr k.parent _).bind fun parent => (loads_lift _).bind fun found => ?_
        cases found with
        | true => exact ih
        | false => exact loads_throw _

theorem loads_checkForeignKeys (name : String) (row : Row) : Loads (checkForeignKeys name row) :=
  (loads_table name).bind fun t => loads_checkParents name t.schema row t.schema.foreignKeys

end Database
end RelStore
