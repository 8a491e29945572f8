import RelStore.Proofs.Database.Coherent
import RelStore.Proofs.Trace

/-! Runs on two databases with one directory, which may keep different tables in memory:
they answer alike, and leave alike databases. Traces are compared by a relation, and the
signals are those that cannot tell related traces apart. -/
namespace RelStore

def Trace.Grows (R : Trace → Trace → Prop) : Prop := ∀ s t t', R t t' → R (s :: t) (s :: t')

/-- Related traces stay related when a table is loaded in one of the runs only. -/
def Trace.IgnoresLoads (R : Trace → Trace → Prop) : Prop :=
  ∀ name n t t', R t t' →
    R (.event (.loaded name n) :: t) t' ∧ R t (.event (.loaded name n) :: t')

def Signal.Respects (R : Trace → Trace → Prop) (signal : Signal) : Prop :=
  ∀ t t', R t t' → signal t = signal t'

namespace Watched
variable {α β : Type} {R : Trace → Trace → Prop} {signal : Signal}

/-- From related traces a run answers the same and leaves related traces. -/
def Alike (R : Trace → Trace → Prop) (w : Watched α) : Prop :=
  ∀ t t', R t t' → ∃ r u u', w.run.run t = (r, u) ∧ w.run.run t' = (r, u') ∧ R u u'

theorem alike_pure (a : α) : Alike R (pure a) := fun t t' h => ⟨.ok a, t, t', rfl, rfl, h⟩

theorem alike_lift (x : Except Error α) : Alike R (liftM x) := by
  intro t t' h
  exact ⟨x, t, t', run_lift x t, run_lift x t', h⟩

theorem Alike.bind {w : Watched α} {f : α → Watched β} (hw : Alike R w)
    (hf : ∀ a, Alike R (f a)) : Alike R (w >>= f) := by
  intro t t' h
  obtain ⟨r, u, u', hu, hu', hR⟩ := hw t t' h
  cases r with
  | error e => exact ⟨.error e, u, u', by rw [run_bind, hu], by rw [run_bind, hu'], hR⟩
  | ok a =>
    obtain ⟨s, v, v', hv, hv', hR'⟩ := hf a u u' hR
    refine ⟨s, v, v', ?_, ?_, hR'⟩
    · rw [run_bind, hu]
      exact hv
    · rw [run_bind, hu']
      exact hv'

theorem alike_pass (hR : Trace.Grows R) (label : Nat) : Alike R (pass label) :=
  fun t t' h => ⟨.ok (), _, _, rfl, rfl, hR _ t t' h⟩

theorem alike_poll (hR : Trace.Grows R) (hs : signal.Respects R) : Alike R (poll signal) := by
  intro t t' h
  have hst := hs t t' h
  simp only [run_poll, ← hst]
  cases signal t with
  | true => exact ⟨.error .cancelled, t, t', rfl, rfl, h⟩
  | false => exact ⟨.ok (), _, _, rfl, rfl, hR _ t t' h⟩

end Watched

namespace Database
variable {α β : Type} {R : Trace → Trace → Prop}

/-- Databases with the same directory, both coherent. Where the traces tell of loads, the
same tables are in memory. -/
structure Same (R : Trace → Trace → Prop) (db db' : Database) : Prop where
  settings : db.settings = db'.settings
  disk : db.disk = db'.disk
  trace : R db.trace db'.trace
  memory : Trace.IgnoresLoads R ∨ db.loaded = db'.loaded
  left : db.Coherent
  right : db'.Coherent

def Ending (R : Trace → Trace → Prop) (Q : α → Database → Database → Prop) :
    Except Error α → Database → Database → Prop
  | .ok a => Q a
  | .error _ => Same R

/-- From databases that `P` relates an action answers the same, and then `Q` relates what
it leaves. -/
def Alike (R : Trace → Trace → Prop) (P : Database → Database → Prop) (x : Action α)
    (Q : α → Database → Database → Prop) : Prop :=
  ∀ db db', P db db' → ∃ r db₁ db₁',
    x.run.run db = (r, db₁) ∧ x.run.run db' = (r, db₁') ∧ Ending R Q r db₁ db₁'

variable {P P' : Database → Database → Prop} {Q Q' : α → Database → Database → Prop}
  {S : β → Database → Database → Prop}

theorem Alike.mono {x : Action α} (hx : Alike R P x Q) (hP : ∀ db db', P' db db' → P db db')
    (hQ : ∀ a db db', Q a db db' → Q' a db db') : Alike R P' x Q' := by
  intro db db' h
  obtain ⟨r, db₁, db₁', h₁, h₁', he⟩ := hx db db' (hP db db' h)
  refine ⟨r, db₁, db₁', h₁, h₁', ?_⟩
  cases r with
  | error e => exact he
  | ok a => exact hQ a db₁ db₁' he

theorem Alike.bind {x : Action α} {f : α → Action β} (hx : Alike R P x Q)
    (hf : ∀ a, Alike R (Q a) (f a) S) : Alike R P (x >>= f) S := by
  intro db db' h
  obtain ⟨r, db₁, db₁', h₁, h₁', he⟩ := hx db db' h
  cases r with
  | error e => exact ⟨.error e, db₁, db₁', by rw [run_bind, h₁], by rw [run_bind, h₁'], he⟩
  | ok a =>
    obtain ⟨s, db₂, db₂', h₂, h₂', he'⟩ := hf a db₁ db₁' he
    refine ⟨s, db₂, db₂', ?_, ?_, he'⟩
    · rw [run_bind, h₁]
      exact h₂
    · rw [run_bind, h₁']
      exact h₂'

theorem alike_pure {a : α} (h : ∀ db db', P db db' → Q a db db') : Alike R P (pure a) Q :=
  fun db db' hP => ⟨.ok a, db, db', rfl, rfl, h db db' hP⟩

theorem alike_throw {e : Error} (h : ∀ db db', P db db' → Same R db db') :
    Alike R P (throw e) Q := fun db db' hP => ⟨.error e, db, db', rfl, rfl, h db db' hP⟩

theorem alike_lift {x : Except Error α} (hP : ∀ db db', P db db' → Same R db db') :
    Alike R P (liftM x) fun a db db' => x = .ok a ∧ P db db' := by
  intro db db' h
  refine ⟨x, db, db', run_lift x db, run_lift x db', ?_⟩
  cases x with
  | error e => exact hP db db' h
  | ok a => exact ⟨rfl, h⟩

theorem Alike.tryCatch {x : Action α} {f : Error → Action α} (hx : Alike R P x Q)
    (hf : ∀ e, Alike R (Same R) (f e) Q) : Alike R P (tryCatch x f) Q := by
  intro db db' h
  obtain ⟨r, db₁, db₁', h₁, h₁', he⟩ := hx db db' h
  cases r with
  | ok a =>
    exact ⟨.ok a, db₁, db₁', by rw [run_tryCatch, h₁], by rw [run_tryCatch, h₁'], he⟩
  | error e =>
    obtain ⟨s, db₂, db₂', h₂, h₂', he'⟩ := hf e db₁ db₁' he
    refine ⟨s, db₂, db₂', ?_, ?_, he'⟩
    · rw [run_tryCatch, h₁]
      exact h₂
    · rw [run_tryCatch, h₁']
      exact h₂'

/-- An action may go by the database as long as it goes the same way on both. -/
theorem alike_get {f : Database → Action α} (hv : ∀ db db', P db db' → f db = f db')
    (hf : ∀ db, Alike R P (f db) Q) : Alike R P (get >>= f) Q := by
  intro db db' h
  obtain ⟨r, db₁, db₁', h₁, h₁', he⟩ := hf db db db' h
  refine ⟨r, db₁, db₁', ?_, ?_, he⟩
  · rw [run_bind, run_get]
    exact h₁
  · rw [run_bind, run_get]
    rw [hv db db' h] at h₁'
    exact h₁'

theorem Alike.of_common {x : Action α} {F : Prop} (hF : ∀ db db', P db db' → F)
    (hx : F → Alike R P x Q) : Alike R P x Q := fun db db' h => hx (hF db db' h) db db' h

def Keeping (R : Trace → Trace → Prop) (name : String) (t : Table) (db db' : Database) : Prop :=
  Same R db db' ∧ db.loaded.lookup name = some t ∧ db'.loaded.lookup name = some t

theorem Same.with_trace {db db' : Database} {u u' : Trace} (h : Same R db db') (hu : R u u') :
    Same R { db with trace := u } { db' with trace := u' } :=
  ⟨h.settings, h.disk, hu, h.memory, h.left.with_trace u, h.right.with_trace u'⟩

theorem alike_watch {w : Watched α} (hw : w.Alike R) :
    Alike R (Same R) (watch w) fun _ => Same R := by
  intro db db' h
  obtain ⟨r, u, u', hu, hu', hR⟩ := hw _ _ h.trace
  refine ⟨r, { db with trace := u }, { db' with trace := u' }, ?_, ?_, ?_⟩
  · rw [run_watch, hu]
  · rw [run_watch, hu']
  · cases r <;> exact h.with_trace hR

theorem alike_watch_keeping {w : Watched α} {name : String} {t : Table} (hw : w.Alike R) :
    Alike R (Keeping R name t) (watch w) fun _ => Keeping R name t := by
  intro db db' h
  obtain ⟨r, u, u', hu, hu', hR⟩ := hw _ _ h.1.trace
  refine ⟨r, { db with trace := u }, { db' with trace := u' }, ?_, ?_, ?_⟩
  · rw [run_watch, hu]
  · rw [run_watch, hu']
  · have hsame := h.1.with_trace hR
    cases r with
    | error e => exact hsame
    | ok a => exact ⟨hsame, h.2⟩

theorem alike_report (hR : Trace.Grows R) (e : Event) :
    Alike R (Same R) (report e) fun _ => Same R :=
  fun _ _ h => ⟨.ok (), _, _, rfl, rfl, h.with_trace (hR _ _ _ h.trace)⟩

theorem alike_reportAll (hR : Trace.Grows R) (es : List Event) :
    Alike R (Same R) (reportAll es) fun _ => Same R := by
  induction es with
  | nil => exact alike_pure fun _ _ h => h
  | cons e es ih => exact (alike_report hR e).bind fun _ => ih

variable {db db' : Database} {name : String} {t : Table}

theorem Coherent.readTable (h : db.Coherent) (hl : db.loaded.lookup name = some t) :
    readTable db.settings db.disk name = .ok t := by
  obtain ⟨rfl, ht, hd⟩ := h.loaded name t hl
  exact readTable_of_holds h.clean ht hd db.settings

theorem Coherent.load (h : db.Coherent) (hr : Database.readTable db.settings db.disk name = .ok t)
    (trace : Trace) :
    Coherent { db with loaded := putTable name t db.loaded, trace } := by
  obtain ⟨rfl, ht, hd⟩ := holds_of_readTable h.clean hr
  exact (h.keep ht hd).with_trace trace

theorem Same.ignoresLoads (h : Same R db db') (hne : db.loaded ≠ db'.loaded) :
    Trace.IgnoresLoads R := h.memory.resolve_right hne

theorem alike_table (hR : Trace.Grows R) (name : String) :
    Alike R (Same R) (table name) fun t => Keeping R name t := by
  intro db db' h
  have hread : readTable db'.settings db'.disk name = readTable db.settings db.disk name := by
    rw [h.settings, h.disk]
  have hput : ∀ (l : List (String × Table)) (t : Table),
      (putTable name t l).lookup name = some t := by
    intro l t
    rw [lookup_putTable, if_pos rfl]
  simp only [run_table, hread]
  cases hl : db.loaded.lookup name with
  | some t =>
    have ht := h.left.readTable hl
    cases hl' : db'.loaded.lookup name with
    | some t' =>
      have ht' := h.right.readTable hl'
      rw [hread, ht] at ht'
      cases ht'
      exact ⟨.ok t, db, db', rfl, rfl, h, hl, hl'⟩
    | none =>
      have hignore := h.ignoresLoads fun hm => by simp [hm, hl'] at hl
      rw [ht]
      refine ⟨.ok t, db, _, rfl, rfl, ⟨h.settings, h.disk, ?_, .inl hignore, h.left, ?_⟩, hl, ?_⟩
      · exact (hignore _ _ _ _ h.trace).2
      · exact h.right.load (hread.trans ht) _
      · exact hput db'.loaded t
  | none =>
    cases hl' : db'.loaded.lookup name with
    | some t =>
      have ht := hread ▸ h.right.readTable hl'
      have hignore := h.ignoresLoads fun hm => by simp [hm, hl'] at hl
      rw [ht]
      refine ⟨.ok t, _, db', rfl, rfl, ⟨h.settings, h.disk, ?_, .inl hignore, ?_, h.right⟩, ?_, hl'⟩
      · exact (hignore _ _ _ _ h.trace).1
      · exact h.left.load ht _
      · exact hput db.loaded t
    | none =>
      cases ht : readTable db.settings db.disk name with
      | error e => exact ⟨.error e, db, db', rfl, rfl, h⟩
      | ok t =>
        refine ⟨.ok t, _, _, rfl, rfl, ⟨h.settings, h.disk, ?_, ?_, ?_, ?_⟩, ?_, ?_⟩
        · exact hR _ _ _ h.trace
        · exact h.memory.imp_right fun hm => congrArg (putTable name t) hm
        · exact h.left.load ht _
        · exact h.right.load (hread.trans ht) _
        · exact hput db.loaded t
        · exact hput db'.loaded t

/-- What both databases keep and save at once. -/
theorem Same.commit (hR : Trace.Grows R) (h : Same R db db') (ht : Lasting t) :
    Same R (saved t { db with loaded := putTable t.name t db.loaded })
      (saved t { db' with loaded := putTable t.name t db'.loaded }) := by
  obtain ⟨settings, disk, trace, memory, left, right⟩ := h
  have hleft := left.commit ht
  have hright := right.commit ht
  refine ⟨settings, ?_, ?_, ?_, hleft, hright⟩
  · show db.disk.replaced _ _ _ = db'.disk.replaced _ _ _
    rw [disk]
  · show R (_ :: db.trace) (_ :: db'.trace)
    rw [settings]
    exact hR _ _ _ trace
  · exact memory.imp_right fun hm => congrArg (putTable t.name t) hm

/-- Keeping a table and saving it at once, in whatever way it is saved. -/
theorem alike_commit (hR : Trace.Grows R) (ht : Lasting t) (hn : t.name = name)
    {x : Action Unit} (hx : ∀ db, IsClean db.disk → x.run.run db = (.ok (), saved t db))
    {f : Action α} (hf : Alike R (Same R) f Q) :
    Alike R (Same R) (do keep name t; x; f) Q := by
  subst hn
  have hrun : ∀ db : Database, db.Coherent →
      (do keep t.name t; x; f : Action α).run.run db =
        f.run.run (saved t { db with loaded := putTable t.name t db.loaded }) := by
    intro db h
    have hclean : IsClean { db with loaded := putTable t.name t db.loaded }.disk := h.clean
    rw [run_bind, run_keep]
    show (x >>= fun _ => f).run.run { db with loaded := putTable t.name t db.loaded } = _
    rw [run_bind, hx _ hclean]
  intro db db' h
  obtain ⟨r, db₁, db₁', h₁, h₁', he⟩ := hf _ _ (h.commit hR ht)
  exact ⟨r, db₁, db₁', by rw [hrun db h.left, h₁], by rw [hrun db' h.right, h₁'], he⟩

theorem Keeping.lasting (h : Keeping R name t db db') : Lasting t ∧ t.name = name := by
  obtain ⟨hn, ht, -⟩ := h.1.left.loaded name t h.2.1
  exact ⟨ht, hn⟩

theorem Keeping.keep (h : Keeping R name t db db') :
    Same R { db with loaded := putTable name t db.loaded }
      { db' with loaded := putTable name t db'.loaded } := by
  obtain ⟨⟨settings, disk, trace, memory, left, right⟩, hl, hl'⟩ := h
  obtain ⟨rfl, ht, hd⟩ := left.loaded name t hl
  obtain ⟨-, -, hd'⟩ := right.loaded _ t hl'
  refine ⟨settings, disk, trace, ?_, left.keep ht hd, right.keep ht hd'⟩
  exact memory.imp_right fun hm => congrArg (putTable t.name t) hm

/-- A table that is kept may be saved again. -/
theorem Coherent.saved (h : db.Coherent) (hl : db.loaded.lookup name = some t) :
    (Database.saved t db).Coherent := by
  obtain ⟨hn, ht, hd⟩ := h.loaded name t hl
  refine ⟨h.clean.saved ht, ?_⟩
  intro n u hu
  obtain ⟨hun, hlu, hdu⟩ := h.loaded n u hu
  refine ⟨hun, hlu, ?_⟩
  by_cases hname : u.name = t.name
  · have hnn : n = name := hun.symm.trans (hname.trans hn)
    subst hnn
    have hut : u = t := Option.some.inj (hu.symm.trans hl)
    rw [hut]
    exact holds_saved _ _
  · exact holds_saved_of_ne hdu hname

theorem alike_save (hR : Trace.Grows R) :
    Alike R (Keeping R name t) (save t) fun _ => Same R := by
  intro db db' h
  have ht := h.lasting.1
  obtain ⟨⟨settings, disk, trace, memory, left, right⟩, hl, hl'⟩ := h
  refine ⟨.ok (), _, _, run_save_clean left.clean ht, run_save_clean right.clean ht, settings,
    ?_, ?_, memory, left.saved hl, right.saved hl'⟩
  · show db.disk.replaced _ _ _ = db'.disk.replaced _ _ _
    rw [disk]
  · show R (_ :: db.trace) (_ :: db'.trace)
    rw [settings]
    exact hR _ _ _ trace

end Database
end RelStore
