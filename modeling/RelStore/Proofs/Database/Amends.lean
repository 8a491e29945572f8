import RelStore.Proofs.Database.Create
import RelStore.Proofs.Database.Loads
import RelStore.Proofs.Database.Tended
import RelStore.Proofs.Statement.Names

/-! What statements change: one table and its file, and of the table nothing but its rows.
A statement first only loads tables; from then on it works on the table of one schema. -/
namespace RelStore
namespace Database
variable {α β : Type} {db₀ db : Database} {disk : Disk} {name : String} {t u : Table} {s : Schema}
  {signal : Signal} {E : Error → Database → Prop}

/-- The second database is the first one but for the table of a schema and its file, and for
tables that were loaded. Where they differ, they hold tables of this schema. -/
structure Amends (s : Schema) (db₀ db : Database) : Prop where
  settings : db.settings = db₀.settings
  root : Disk.SameRoot db₀.disk db.disk
  nodes : ∀ p, p ≠ [] → p ≠ [tableFile s.name] → db.disk.node? p = db₀.disk.node? p
  file : db.disk.node? [tableFile s.name] = db₀.disk.node? [tableFile s.name] ∨
    db.disk.node? [] = some .folder ∧ ∃ u, Lasting u ∧ u.schema = s ∧
      db.disk.node? [tableFile s.name] = some (.file (Document.ofTable u).encode)
  memory : ∀ m, m ≠ s.name → db.loaded.lookup m = db₀.loaded.lookup m ∨
    ∃ t, db₀.loaded.lookup m = none ∧ ((load m).run.run db₀).1 = .ok t ∧
      db.loaded.lookup m = some t
  kept : ∀ t, db.loaded.lookup s.name = some t → Lasting t ∧ t.schema = s
  stays : db.loaded.lookup s.name = none → db₀.loaded.lookup s.name = none

theorem blind_amends : Blind (Amends s db₀) := fun _ _ h =>
  ⟨h.settings, h.root, h.nodes, h.file, h.memory, h.kept, h.stays⟩

/-- Tables that were loaded are no change. -/
theorem OnlyLoads.amends (h : OnlyLoads db₀ db) (h₀ : db₀.Tended)
    (hs : ∀ t, db₀.found s.name = .ok t → t.schema = s) : Amends s db₀ db where
  settings := h.settings
  root := .inl (by rw [h.disk])
  nodes := fun _ _ _ => by rw [h.disk]
  file := .inl (by rw [h.disk])
  memory := fun m _ => h.memory m
  kept := fun t ht => by
    have hfound : db₀.found s.name = .ok t :=
      (h.untouched.found s.name).symm.trans (found_of_lookup ht)
    exact ⟨(h₀.lasting hfound).1, hs t hfound⟩
  stays := fun hnone => by
    rcases h.memory s.name with hsame | ⟨_, hnone, -⟩
    · exact hsame.symm.trans hnone
    · exact hnone

theorem Amends.keep (h : Amends s db₀ db) (hu : Lasting u) (hs : u.schema = s) :
    Amends s db₀ { db with loaded := putTable s.name u db.loaded } := by
  refine ⟨h.settings, h.root, h.nodes, h.file, fun m hm => ?_, fun t ht => ?_, fun hnone => ?_⟩
  · rw [lookup_putTable, if_neg hm]
    exact h.memory m hm
  · rw [lookup_putTable, if_pos rfl] at ht
    cases ht
    exact ⟨hu, hs⟩
  · rw [lookup_putTable, if_pos rfl] at hnone
    cases hnone

theorem Amends.sameNodes (h : Amends s db₀ db) (hd : Disk.SameNodes db.disk disk)
    (trace : Trace) : Amends s db₀ { db with disk, trace } := by
  refine ⟨h.settings, h.root.trans hd.root, fun p hp hpf => ?_, ?_, h.memory, h.kept, h.stays⟩
  · exact (hd.nodes p hp).trans (h.nodes p hp hpf)
  · have hfile := hd.nodes [tableFile s.name] (by simp)
    rcases h.file with hsame | ⟨hroot, u, hu, hs, hsaved⟩
    · exact .inl (hfile.trans hsame)
    · refine .inr ⟨?_, u, hu, hs, hfile.trans hsaved⟩
      rcases hd.root with hroot' | ⟨hnone, -⟩
      · exact hroot'.trans hroot
      · rw [hroot] at hnone
        cases hnone

theorem Amends.replaces (h : Amends s db₀ db) (hu : Lasting u) (hs : u.schema = s)
    (hroot : disk.node? [] = some .folder)
    (hd : Disk.Replaces [tableFile s.name] (Document.ofTable u).encode db.disk disk)
    (trace : Trace) : Amends s db₀ { db with disk, trace } := by
  refine ⟨h.settings, h.root.trans hd.root, fun p hp hpf => ?_, ?_, h.memory, h.kept, h.stays⟩
  · exact (hd.others p hp hpf).trans (h.nodes p hp hpf)
  · exact .inr ⟨hroot, u, hu, hs, hd.file⟩

def Writes (s : Schema) (x : Action α) : Prop :=
  ∀ db₀, Ensures (Amends s db₀) x (fun _ => Amends s db₀) fun _ => Amends s db₀

theorem Writes.bind {x : Action α} {f : α → Action β} (hx : Writes s x)
    (hf : ∀ a, Writes s (f a)) : Writes s (x >>= f) := fun db₀ => (hx db₀).bind fun a => hf a db₀

theorem writes_pure (a : α) : Writes s (pure a) := fun _ => ensures_pure fun _ h => h

theorem writes_throw (e : Error) : Writes s (throw e : Action α) := fun _ =>
  ensures_throw fun _ h => h

theorem writes_lift_bind {x : Except Error α} {f : α → Action β}
    (hf : ∀ a, x = .ok a → Writes s (f a)) : Writes s (liftM x >>= f) := fun db₀ =>
  (ensures_lift_eq x fun _ _ h => h).bind fun a => .of_common (fun _ h => h.1) fun ha =>
    (hf a ha db₀).strengthen fun _ h => h.2

theorem writes_watch (w : Watched α) : Writes s (watch w) := fun _ => blind_amends.ensures_watch w

theorem writes_keep (hu : Lasting u) (hs : u.schema = s) : Writes s (keep s.name u) := fun _ =>
  ensures_modify fun _ h => h.keep hu hs

theorem writes_save (hu : Lasting u) (hs : u.schema = s) : Writes s (save u) := by
  intro db₀ db h
  have hname : u.name = s.name := congrArg Schema.name hs
  rw [run_save]
  rcases hsave : db.disk.save (tableFile u.name) (Document.ofTable u).encode with ⟨_ | _, disk⟩
  · exact h.sameNodes (Disk.sameNodes_of_save hsave) db.trace
  · obtain ⟨-, hroot, hd⟩ := hu.direct.toIsPlain.replaces_of_save hsave
    exact h.replaces hu hs hroot (hname ▸ hd) _

theorem writes_keep_save (hu : Lasting u) (hs : u.schema = s) {f : Action α} (hf : Writes s f) :
    Writes s (do keep s.name u; save u; f) :=
  (writes_keep hu hs).bind fun _ => (writes_save hu hs).bind fun _ => hf

/-- A call leaves a lasting table, of the same schema. -/
theorem Lasting.attempt {c : Table.Call} (h : Lasting t) (hu : t.attempt c = .ok u) :
    Lasting u ∧ u.schema = t.schema :=
  have hs := Table.attempt_schema hu
  ⟨(h.of_schema (h.sound.attempt hu) hs).1, hs⟩

theorem writes_insert (ht : Lasting t) (row : Row) {f : Table → Action α}
    (hf : ∀ u, Lasting u → u.schema = t.schema → Writes t.schema (f u)) :
    Writes t.schema (liftM (t.insert row) >>= f) :=
  writes_lift_bind fun u hu => by
    obtain ⟨hlasting, hs⟩ := ht.attempt (c := .insert row) hu
    exact hf u hlasting hs

theorem writes_changeRow (ht : Lasting t) (c : Table.Call) :
    Writes t.schema (changeRow t.name t (t.attempt c)) := by
  unfold changeRow
  cases hu : t.attempt c with
  | ok u =>
    obtain ⟨hlasting, hs⟩ := ht.attempt hu
    exact writes_keep_save hlasting hs (writes_pure 1)
  | error e =>
    show Writes _ (if e.errorClass = .rowNotFound then _ else _)
    split
    · exact (writes_save ht rfl).bind fun _ => writes_pure 0
    · exact writes_throw e

theorem writes_settle (hu : Lasting u) (hs : u.schema = s) (result : Except Error Unit) (n : Nat) :
    Writes s (settle s.name result u n) := by
  unfold settle
  cases result with
  | ok _ => exact writes_keep_save hu hs (writes_pure n)
  | error e =>
    by_cases hn : 0 < n
    · simp only [hn, if_true]
      exact writes_keep_save hu hs (writes_throw e)
    · simp only [hn, if_false]
      exact (writes_keep hu hs).bind fun _ => writes_throw e

theorem writes_changeRows (ht : Lasting t) (call : Value → Table.Call) (change : Change)
    (c : Condition) :
    Writes t.schema
      (changeRows signal change t.name t c fun t key => t.attempt (call key)) := by
  rw [changeRows_eq]
  refine (writes_watch _).bind fun keys db₀ => ensures_get fun db => ?_
  have hstep : ∀ u key u', Lasting u ∧ u.schema = t.schema → u.attempt (call key) = .ok u' →
      Lasting u' ∧ u'.schema = t.schema := by
    intro u key u' hu hk
    obtain ⟨hlasting, hs⟩ := hu.1.attempt hk
    exact ⟨hlasting, hs.trans hu.2⟩
  obtain ⟨hp, -⟩ := sweep_keeps hstep signal change keys ⟨t, 0, db.trace⟩ ⟨ht, rfl⟩
  have hmodify : ∀ trace : Trace,
      Ensures (Amends t.schema db₀) (modify fun db => { db with trace })
        (fun _ => Amends t.schema db₀) fun _ => Amends t.schema db₀ := fun trace =>
    ensures_modify fun db h => blind_amends db trace h
  exact (hmodify _).bind fun _ => writes_settle hp.1 hp.2 _ _ db₀

/-- The first database was left as the second one, with no change but of one table. -/
def Leaves (name : String) (db₀ db : Database) : Prop :=
  ∃ s : Schema, s.name = name ∧ (∀ t, db₀.found name = .ok t → t.schema = s) ∧ Amends s db₀ db

theorem schema_of_found (h : db.found name = .ok t) (u : Table) (hu : db.found name = .ok u) :
    u.schema = t.schema := by
  rw [Except.ok.inj (hu.symm.trans h)]

theorem OnlyLoads.leaves (h : OnlyLoads db₀ db) (h₀ : db₀.Tended) (name : String) :
    Leaves name db₀ db := by
  cases hf : db₀.found name with
  | ok t =>
    have hs := schema_of_found hf
    have hname : t.schema.name = name := (h₀.lasting hf).2
    exact ⟨t.schema, hname, hs, h.amends h₀ (hname ▸ hs)⟩
  | error e =>
    have hs : ∀ u, db₀.found name = .ok u → u.schema = .ofColumns name [] := by
      intro u hu
      rw [hf] at hu
      cases hu
    exact ⟨.ofColumns name [], rfl, hs, h.amends h₀ hs⟩

def Changes (name : String) (x : Action α) : Prop :=
  ∀ db₀, Tended db₀ → Ensures (OnlyLoads db₀) x (fun _ => Leaves name db₀) fun _ => Leaves name db₀

theorem Loads.changes {x : Action α} (hx : Loads x) (name : String) : Changes name x :=
  fun db₀ h₀ => (hx db₀).mono (fun _ h => h) (fun _ _ h => h.leaves h₀ name) fun _ _ h =>
    h.leaves h₀ name

theorem Loads.bind_changes {x : Action α} {f : α → Action β} (hx : Loads x)
    (hf : ∀ a, Changes name (f a)) : Changes name (x >>= f) := fun db₀ h₀ =>
  ((hx db₀).mono (fun _ h => h) (fun _ _ h => h) fun _ _ h => h.leaves h₀ name).bind fun a =>
    hf a db₀ h₀

theorem Changes.map {x : Action α} (hx : Changes name x) (f : α → β) :
    Changes name (do let a ← x; pure (f a)) := fun db₀ h₀ =>
  (hx db₀ h₀).bind fun _ => ensures_pure fun _ h => h

/-- A change of the table that is found under a name. -/
theorem changes_table {f : Table → Action α}
    (hf : ∀ t, Lasting t → t.name = name → Writes t.schema (f t)) :
    Changes name (table name >>= f) := by
  intro db₀ h₀ db h
  have hfound : ((table name).run.run db).1 = db₀.found name := h.untouched.found name
  have hloads := loads_table name db₀ db h
  rw [run_bind]
  rcases hrun : (table name).run.run db with ⟨e | t, db₁⟩
  · rw [hrun] at hloads
    exact OnlyLoads.leaves hloads h₀ name
  · rw [hrun] at hloads hfound
    have hs := schema_of_found hfound.symm
    obtain ⟨ht, rfl⟩ := h₀.lasting hfound.symm
    have hamends : Amends t.schema db₀ db₁ := OnlyLoads.amends hloads h₀ hs
    exact (hf t ht rfl db₀ db₁ hamends).mono (fun _ h => ⟨t.schema, rfl, hs, h⟩)
      fun _ h => ⟨t.schema, rfl, hs, h⟩

theorem changes_insertKept (name : String) (row : Row) : Changes name (insertKept name row) :=
  changes_table fun t ht hn => writes_insert ht row fun u hu hs => by
    rw [← hn]
    exact (writes_keep hu hs).bind fun _ => writes_pure u

theorem changes_insert (name : String) (row : Row) : Changes name (insert name row) := by
  rw [insert_eq]
  refine changes_table fun t ht hn => writes_insert ht row fun u hu hs => ?_
  rw [← hn]
  exact writes_keep_save hu hs (writes_pure _)

theorem changes_update (name : String) (assignments : List (String × Value)) (c : Condition)
    (signal : Signal) : Changes name (update name assignments c signal) := by
  refine changes_table fun t ht hn => writes_lift_bind fun changes _ => ?_
  subst hn
  split
  · rename_i key _
    exact (writes_changeRow ht (.edit key (assign changes))).bind fun n => writes_pure _
  · exact (writes_changeRows ht (fun key => .edit key (assign changes)) .update c).bind fun n =>
      writes_pure _

theorem changes_delete (name : String) (c : Condition) (signal : Signal) :
    Changes name (delete name c signal) := by
  refine changes_table fun t ht hn => ?_
  subst hn
  split
  · rename_i key _
    exact (writes_changeRow ht (.erase key)).bind fun n => writes_pure _
  · exact (writes_changeRows ht .erase .delete c).bind fun n => writes_pure _

/-- Where there is no table, none is found. -/
theorem not_found_of_hasTable (h : db.hasTable name = false) :
    db.loaded.lookup name = none ∧ ∀ t, db.found name ≠ .ok t := by
  obtain ⟨hnone, hfile⟩ := Bool.or_eq_false_iff.1 h
  have hlookup : db.loaded.lookup name = none := by simpa using hnone
  refine ⟨hlookup, fun t ht => ?_⟩
  rw [found_of_lookup_eq_none hlookup] at ht
  obtain ⟨bytes, _, hfind, -, -⟩ := readTable_eq_ok_iff.1 ht
  rw [hasFile, Disk.isFile, hfind] at hfile
  cases hfile

/-- A new table is saved, or else dropped again. -/
theorem amends_enterOn (h : Amends t.schema db₀ db) (hs : t.Sound)
    (hcheck : t.schema.check = .ok ()) (hn : isName t.name = true)
    (hnone : db.loaded.lookup t.name = none) :
    Amends t.schema db₀ ((enterOn .willing t).run.run db).2 := by
  rw [run_enterOn .willing hnone, Disk.saveOn_willing_eq]
  rcases hsave : db.disk.save (tableFile t.name) (Document.ofTable t).encode with ⟨_ | _, disk⟩
  · exact h.sameNodes (Disk.sameNodes_of_save hsave) db.trace
  · obtain ⟨hdirect, hroot, hd⟩ := (isPlain_tableFile hn).replaces_of_save hsave
    have hlasting : Lasting t := ⟨hs, hcheck, hn, hdirect.short⟩
    have hkeep := h.keep hlasting rfl
    rw [← Table.name, putTable_of_lookup_eq_none hnone] at hkeep
    exact hkeep.replaces hlasting rfl hroot hd _

theorem changes_create (hl : s.Listed) : Changes s.name (create s) := by
  intro db₀ h₀
  have herror : ∀ (e : Error) db, OnlyLoads db₀ db → Leaves s.name db₀ db := fun _ _ h =>
    h.leaves h₀ s.name
  unfold create
  refine (ensures_lift_eq _ herror).bind fun _ => ?_
  refine (ensures_lift_eq _ fun e db h => herror e db h.2).bind fun _ => ?_
  refine (ensures_lift_eq _ fun e db h => herror e db h.2.2).bind fun t => ?_
  refine Ensures.of_common (F := isName t.name = true ∧ Table.create s = .ok t)
    (fun _ h => ⟨isName_create h.2.2.1 h.1, h.1⟩) fun ⟨hn, ht⟩ => ?_
  obtain ⟨hcheck, hschema⟩ := Table.create_schema ht
  rw [hl.relist_eq] at hschema
  subst hschema
  refine ensures_get_eq fun db h => ?_
  have hloads : OnlyLoads db₀ db := h.2.2.2
  cases habsent : db.hasTable t.name with
  | true => exact ensures_throw fun _ hdb => hdb ▸ herror (.tableTaken t.name) db hloads
  | false =>
    obtain ⟨hnone, hnot⟩ := not_found_of_hasTable habsent
    have hs : ∀ u, db₀.found t.name = .ok u → u.schema = t.schema := fun u hu =>
      absurd ((hloads.untouched.found t.name).trans hu) (hnot u)
    have hamends := amends_enterOn (hloads.amends h₀ hs) (Table.create_sound ht) hcheck hn hnone
    have hleaves : Leaves t.name db₀ ((enterOn .willing t).run.run db).2 :=
      ⟨t.schema, rfl, hs, hamends⟩
    rintro _ rfl
    exact meets_iff.2 ⟨fun _ _ => hleaves, fun _ _ => hleaves⟩

theorem changes_createTable (name : String) (columns : List Column) (ifAbsent : Bool) :
    Changes name (createTable name columns ifAbsent) := by
  intro db₀ h₀
  unfold createTable
  refine ensures_get fun db => ?_
  split
  · exact (loads_pure _).changes name db₀ h₀
  · have hlisted := Schema.listed_ofColumns name columns []
    have hcreate := (changes_create hlisted).map fun _ => Outcome.created name
    refine (hcreate db₀ h₀).tryCatch fun e => ?_
    split
    · exact ensures_pure fun _ h => h
    · exact ensures_throw fun _ h => h

theorem changes_run (s : Statement) (signal : Signal) : Changes s.table (run s signal) := by
  refine (loads_poll signal).bind_changes fun _ => ?_
  cases s with
  | select q => exact (loads_select q signal).changes q.table
  | insert name row => exact changes_insert name row
  | update name assignments c => exact changes_update name assignments c signal
  | delete name c => exact changes_delete name c signal
  | create name columns ifAbsent => exact changes_createTable name columns ifAbsent

end Database
end RelStore
