import RelStore.Proofs.Database.Amends
import RelStore.Proofs.Database.Requests

/-! No statement changes any other table than the one that it names, nor the columns of that
one. So it is for every database whose table files were written by databases, whatever was
asked of it before and whatever others did with the files. -/
namespace RelStore

def Statement.target? : Statement → Option String
  | .select _ => none
  | s => some s.table

def Statement.targetOf? (text : String) : Option String :=
  (parse text).toOption.bind target?

namespace Database
variable {α β : Type} {db₀ db : Database} {name : String} {t u : Table} {s : Schema}

theorem Amends.authored (h : Amends s db₀ db) (h₀ : db₀.disk.Authored) : db.disk.Authored := by
  refine ⟨fun hnone p => ?_, fun p bytes doc hp hdoc => ?_⟩
  · have hroot : db.disk.node? [] = db₀.disk.node? [] := by
      rcases h.root with hroot | ⟨-, hmade⟩
      · exact hroot
      · rw [hnone] at hmade
        cases hmade
    have hall := h₀.rooted (hroot.symm.trans hnone)
    by_cases hpnil : p = []
    · rw [hpnil, hnone]
    by_cases hpf : p = [tableFile s.name]
    · rcases h.file with hsame | ⟨hfolder, -⟩
      · rw [hpf, hsame, hall]
      · rw [hnone] at hfolder
        cases hfolder
    · rw [h.nodes p hpnil hpf, hall]
  · by_cases hpnil : p = []
    · rcases h.root with hroot | ⟨-, hmade⟩
      · exact h₀.named p bytes doc (hpnil ▸ hroot.symm.trans (hpnil ▸ hp)) hdoc
      · rw [hpnil, hmade] at hp
        cases hp
    by_cases hpf : p = [tableFile s.name]
    · rcases h.file with hsame | ⟨-, u, hu, -, hsaved⟩
      · exact h₀.named p bytes doc (hpf ▸ hsame.symm.trans (hpf ▸ hp)) hdoc
      · rw [hpf, hsaved] at hp
        cases hp
        rw [Document.decode?_encode (Document.ofValues_ofTable u)] at hdoc
        cases hdoc
        exact hu.named
    · exact h₀.named p bytes doc ((h.nodes p hpnil hpf).symm.trans hp) hdoc

theorem Amends.readTable_other (h : Amends s db₀ db) (h₀ : db₀.disk.Authored)
    (hn : name ≠ s.name) : readTable db.settings db.disk name = .ok t ↔
      readTable db₀.settings db₀.disk name = .ok t := by
  rw [h.settings]
  refine readTable_congr h₀ (h.authored h₀) h.root (h.nodes _ (by simp) fun hp => ?_)
  exact hn (tableFile_inj (List.head_eq_of_cons_eq hp))

/-- The file of the table is as before, or it holds a table of the schema. -/
theorem Amends.readTable_own (h : Amends s db₀ db) (h₀ : db₀.disk.Authored) :
    (∀ u, readTable db.settings db.disk s.name = .ok u ↔
      readTable db₀.settings db₀.disk s.name = .ok u) ∨
    ∃ u, readTable db.settings db.disk s.name = .ok u ∧ u.schema = s := by
  rcases h.file with hsame | ⟨hroot, u, hu, rfl, hsaved⟩
  · left
    intro u
    rw [h.settings]
    exact readTable_congr h₀ (h.authored h₀) h.root hsame
  · exact .inr ⟨u, readTable_saved hroot hu hsaved, rfl⟩

theorem Amends.found_other (h : Amends s db₀ db) (h₀ : db₀.disk.Authored) (hn : name ≠ s.name) :
    db.found name = .ok t ↔ db₀.found name = .ok t := by
  rcases h.memory name hn with hsame | ⟨u, hnone, hload, hsome⟩
  · cases hl : db₀.loaded.lookup name with
    | some u => rw [found_of_lookup hl, found_of_lookup (hsame.trans hl)]
    | none =>
      rw [found_of_lookup_eq_none hl, found_of_lookup_eq_none (hsame.trans hl)]
      exact h.readTable_other h₀ hn
  · rw [found_of_lookup hsome, found_of_lookup_eq_none hnone, ← fst_run_load, hload]

theorem Amends.found_own (h : Amends s db₀ db) (h₀ : db₀.disk.Authored)
    (ht : db₀.found s.name = .ok t) (hs : t.schema = s) :
    ∃ u, db.found s.name = .ok u ∧ u.schema = s := by
  cases hl : db.loaded.lookup s.name with
  | some u => exact ⟨u, found_of_lookup hl, (h.kept u hl).2⟩
  | none =>
    rw [found_of_lookup_eq_none (h.stays hl)] at ht
    rw [found_of_lookup_eq_none hl]
    rcases h.readTable_own h₀ with hsame | hsaved
    · exact ⟨t, (hsame t).2 ht, hs⟩
    · exact hsaved

theorem Amends.tended (h : Amends s db₀ db) (h₀ : db₀.Tended) : db.Tended := by
  refine ⟨h.authored h₀.authored, fun name t hl => ?_⟩
  by_cases hn : name = s.name
  · subst hn
    obtain ⟨ht, hts⟩ := h.kept t hl
    exact ⟨ht, congrArg Schema.name hts⟩
  · exact h₀.lasting ((h.found_other h₀.authored hn).1 (found_of_lookup hl))

/-- The files go on to have the schemas of the tables in memory. -/
theorem Amends.agrees (h : Amends s db₀ db) (h₀ : db₀.Tended)
    (hs : ∀ t, db₀.found s.name = .ok t → t.schema = s) (ha : db₀.Agrees) : db.Agrees := by
  intro name t u ht hu
  by_cases hn : name = s.name
  · subst hn
    cases hl : db.loaded.lookup s.name with
    | none =>
      rw [found_of_lookup_eq_none hl] at ht
      rw [fst_run_load] at hu
      rw [Except.ok.inj (hu.symm.trans ht)]
    | some v =>
      obtain rfl : v = t := Except.ok.inj ((found_of_lookup hl).symm.trans ht)
      rw [(h.kept v hl).2]
      rw [fst_run_load] at hu
      rcases h.readTable_own h₀.authored with hsame | ⟨w, hw, hws⟩
      · have hu₀ : ((load s.name).run.run db₀).1 = .ok u :=
          (fst_run_load s.name db₀).trans ((hsame u).1 hu)
        obtain ⟨t₀, ht₀⟩ := found_of_load hu₀
        rw [ha s.name t₀ u ht₀ hu₀, hs t₀ ht₀]
      · rw [← hws, Except.ok.inj (hu.symm.trans hw)]
  · rw [fst_run_load] at hu
    refine ha name t u ((h.found_other h₀.authored hn).1 ht) ?_
    exact (fst_run_load name db₀).trans ((h.readTable_other h₀.authored hn).1 hu)

theorem IsClean.authored {d : Disk} (h : IsClean d) : d.Authored := by
  refine ⟨fun hnone => ?_, fun p bytes doc hp hdoc => ?_⟩
  · rw [h.root] at hnone
    cases hnone
  · rcases h.only p _ hp with rfl | ⟨t, ht, -, hbytes⟩
    · rw [h.root] at hp
      cases hp
    · cases hbytes
      rw [Document.decode?_encode (Document.ofValues_ofTable t)] at hdoc
      cases hdoc
      exact ht.named

/-- The databases that are opened on directories with files of tables, and those that they
become by requests and saves, while others do with the files what they will as long as there
are only files of tables. -/
inductive Attained : Database → Prop
  | fresh (settings : Settings) {disk : Disk} (h : disk.Authored) : Attained (fresh settings disk)
  | request {db : Database} (h : Attained db) (r : Request)
    (hr : ∀ disk, r = .replaceFiles disk → disk.Authored) : Attained (r.action.run.run db).2
  | save {db : Database} (h : Attained db) (name : String) :
    Attained ((table name >>= save).run.run db).2

/-- An action that keeps the invariant, and does not make files and memory disagree, whether it
fails or not. -/
def Tends (x : Action α) : Prop :=
  ∀ db, Tended db → Tended (x.run.run db).2 ∧ (Agrees db → Agrees (x.run.run db).2)

theorem Changes.tends {x : Action α} (hx : Changes name x) : Tends x := by
  intro db h
  obtain ⟨s, rfl, hs, hamends⟩ : Leaves name db (x.run.run db).2 := (hx db h db (.refl db)).of_both
  exact ⟨hamends.tended h, hamends.agrees h hs⟩

theorem Loads.tends {x : Action α} (hx : Loads x) : Tends x := (hx.changes "").tends

theorem Tends.bind {x : Action α} {f : α → Action β} (hx : Tends x) (hf : ∀ a, Tends (f a)) :
    Tends (x >>= f) := by
  intro db h
  obtain ⟨htended, hagrees⟩ := hx db h
  rw [run_bind]
  rcases hrun : x.run.run db with ⟨e | a, db₁⟩
  · rw [hrun] at htended hagrees
    exact ⟨htended, hagrees⟩
  · rw [hrun] at htended hagrees
    obtain ⟨htended', hagrees'⟩ := hf a db₁ htended
    exact ⟨htended', fun ha => hagrees' (hagrees ha)⟩

theorem tends_get {f : Database → Action α} (hf : ∀ db, Tends (f db)) : Tends (get >>= f) := by
  intro db h
  rw [run_bind, run_get]
  exact hf db db h

theorem authored_makeDirectory {d d' : Disk} (h : d.Authored) (hd : d.makeDirectory = some d') :
    d'.Authored := by
  have hroot := Disk.makeDirectory_folder hd
  refine ⟨fun hnone => ?_, fun p bytes doc hp hdoc => ?_⟩
  · rw [hroot] at hnone
    cases hnone
  · by_cases hpnil : p = []
    · rw [hpnil, hroot] at hp
      cases hp
    · exact h.named p bytes doc (((Disk.sameNodes_makeDirectory hd).nodes p hpnil).symm.trans hp) hdoc

theorem tends_connect : Tends connect := by
  intro db h
  unfold connect
  rw [run_bind, run_get]
  dsimp only
  cases hd : db.disk.makeDirectory with
  | some disk => exact ⟨⟨authored_makeDirectory h.authored hd, nofun⟩, fun _ => agrees_of_loaded rfl⟩
  | none => exact ⟨h, fun ha => ha⟩

theorem tends_request (r : Request) (hr : ∀ disk, r ≠ .replaceFiles disk) : Tends r.action := by
  cases r with
  | execute text signal =>
    have hrun := fun s => (changes_run s signal).tends
    refine Tends.bind ?_ fun _ => (loads_pure ()).tends
    exact (loads_poll signal).tends.bind fun _ => (loads_lift _).tends.bind hrun
  | run s signal => exact ((changes_run s signal).map fun _ => ()).tends
  | plan s => exact ((loads_planOf s).bind fun _ => loads_pure ()).tends
  | load name => exact ((loads_table name).bind fun _ => loads_pure ()).tends
  | create name columns keys =>
    exact ((changes_create (Schema.listed_ofColumns name columns keys)).map fun _ => ()).tends
  | insert name row => exact ((changes_insertKept name row).map fun _ => ()).tends
  | checkForeignKeys name row => exact (loads_checkForeignKeys name row).tends
  | reopen =>
    exact tends_get fun db => (loads_report _).tends.bind fun _ => tends_connect
  | replaceFiles disk => exact absurd rfl (hr disk)

theorem Attained.tended (h : Attained db) : db.Tended := by
  induction h with
  | fresh settings h => exact tended_fresh settings h
  | @request db _ r hr ih =>
    by_cases hfiles : ∃ disk, r = .replaceFiles disk
    · obtain ⟨disk, rfl⟩ := hfiles
      exact ⟨hr disk rfl, ih.loaded⟩
    · exact (tends_request r (fun disk hdisk => hfiles ⟨disk, hdisk⟩) db ih).1
  | @save db _ name ih =>
    have hsave : Changes name (table name >>= Database.save) :=
      changes_table fun t ht _ => writes_save ht rfl
    exact (hsave.tends db ih).1

theorem Attained.afterRequests {rs : List Request} (h : db.Attained)
    (hrs : ∀ r ∈ rs, ∀ disk, r = .replaceFiles disk → disk.Authored) :
    (db.afterRequests rs).Attained := by
  induction rs generalizing db with
  | nil => exact h
  | cons r rest ih =>
    rw [List.forall_mem_cons] at hrs
    exact ih (h.request r hrs.1) hrs.2

/-- While nobody else changes the files, they have the schemas of the tables in memory. -/
theorem agrees_afterRequests {rs : List Request} (h : db.Tended) (ha : db.Agrees)
    (hrs : ∀ r ∈ rs, ∀ disk, r ≠ .replaceFiles disk) : (db.afterRequests rs).Agrees := by
  induction rs generalizing db with
  | nil => exact ha
  | cons r rest ih =>
    rw [List.forall_mem_cons] at hrs
    obtain ⟨htended, hagrees⟩ := tends_request r hrs.1 db h
    exact ih htended (hagrees ha) hrs.2

/-- What may differ after a statement that may change some table, or none. -/
structure Confined (target : Option String) (db db' : Database) : Prop where
  /-- The directory may have been made. -/
  root : Disk.SameRoot db.disk db'.disk
  /-- All other files have their bytes. -/
  files : ∀ p, p ≠ [] → (∀ n, target = some n → p ≠ [tableFile n]) →
    db'.disk.node? p = db.disk.node? p
  /-- All other tables are found as they were, with their rows and indexes. -/
  tables : ∀ n, target ≠ some n → ∀ t, db'.found n = .ok t ↔ db.found n = .ok t
  /-- All other tables in memory stay there. -/
  memory : ∀ n, target ≠ some n → ∀ t, db.loaded.lookup n = some t → db'.loaded.lookup n = some t
  /-- Every table is still found, with its columns and foreign keys. -/
  schemas : ∀ n t, db.found n = .ok t → ∃ u, db'.found n = .ok u ∧ u.schema = t.schema
  /-- Every table whose file has its columns and foreign keys can still be loaded from it, with
  the same. -/
  documents : ∀ n t u, db.found n = .ok t → ((load n).run.run db).1 = .ok u →
    u.schema = t.schema → ∃ v, ((load n).run.run db').1 = .ok v ∧ v.schema = t.schema
  /-- Without such a table no file differs. -/
  query : target = none → db'.disk = db.disk

theorem OnlyLoads.confined (h : OnlyLoads db₀ db) : Confined none db₀ db where
  root := .inl (by rw [h.disk])
  files := fun p _ _ => by rw [h.disk]
  tables := fun n _ t => by rw [h.untouched.found]
  memory := fun n _ t hl => by
    rcases h.memory n with hsame | ⟨u, hnone, -⟩
    · exact hsame.trans hl
    · rw [hl] at hnone
      cases hnone
  schemas := fun n t ht => ⟨t, (h.untouched.found n).trans ht, rfl⟩
  documents := fun n t u _ hu hs => by
    rw [fst_run_load] at hu
    rw [fst_run_load, h.settings, h.disk]
    exact ⟨u, hu, hs⟩
  query := fun _ => h.disk

theorem Leaves.confined (h : Leaves name db₀ db) (h₀ : db₀.Tended) :
    Confined (some name) db₀ db := by
  obtain ⟨s, rfl, hs, h⟩ := h
  refine ⟨h.root, fun p hp hpf => h.nodes p hp (hpf s.name rfl), fun n hn t => ?_,
    fun n hn t hl => ?_, fun n t ht => ?_, fun n t u ht hu hut => ?_, nofun⟩
  · exact h.found_other h₀.authored fun hne => hn (congrArg some hne.symm)
  · rcases h.memory n fun hne => hn (congrArg some hne.symm) with hsame | ⟨u, hnone, -⟩
    · exact hsame.trans hl
    · rw [hl] at hnone
      cases hnone
  · by_cases hn : n = s.name
    · subst hn
      rw [hs t ht]
      exact h.found_own h₀.authored ht (hs t ht)
    · exact ⟨t, (h.found_other h₀.authored hn).2 ht, rfl⟩
  · rw [fst_run_load] at hu
    rw [fst_run_load]
    by_cases hn : n = s.name
    · subst hn
      rcases h.readTable_own h₀.authored with hsame | ⟨v, hv, hvs⟩
      · exact ⟨u, (hsame u).2 hu, hut⟩
      · exact ⟨v, hv, hvs.trans (hs t ht).symm⟩
    · exact ⟨u, (h.readTable_other h₀.authored hn).2 hu, hut⟩

def Targets : Option String → Action α → Prop
  | none, x => Loads x
  | some name, x => Changes name x

variable {target : Option String} {signal : Signal}

theorem Targets.confined {x : Action α} (hx : Targets target x) (h : db.Tended) :
    Confined target db (x.run.run db).2 := by
  cases target with
  | none => exact (hx db db (.refl db)).of_both.confined
  | some name => exact Leaves.confined (hx db h db (.refl db)).of_both h

theorem Loads.bind_targets {x : Action α} {f : α → Action β} (hx : Loads x)
    (hf : ∀ a, Targets target (f a)) : Targets target (x >>= f) := by
  cases target with
  | none => exact hx.bind hf
  | some name => exact hx.bind_changes hf

theorem targets_lift_bind {x : Except Error α} {f : α → Action β}
    (hf : ∀ a, x = .ok a → Targets target (f a)) : Targets target (liftM x >>= f) := by
  cases target with
  | none =>
    exact fun db₀ => (ensures_lift_eq x fun _ _ h => h).bind fun a =>
      .of_common (fun _ h => h.1) fun ha => (hf a ha db₀).strengthen fun _ h => h.2
  | some name =>
    exact fun db₀ h₀ => (ensures_lift_eq x fun _ _ h => h.leaves h₀ name).bind fun a =>
      .of_common (fun _ h => h.1) fun ha => (hf a ha db₀ h₀).strengthen fun _ h => h.2

theorem targets_run (s : Statement) (signal : Signal) : Targets s.target? (run s signal) := by
  cases s with
  | select q => exact (loads_poll signal).bind fun _ => loads_select q signal
  | _ => exact changes_run _ signal

theorem targets_execute (text : String) (signal : Signal) :
    Targets (Statement.targetOf? text) (execute text signal) := by
  refine (loads_poll signal).bind_targets fun _ => targets_lift_bind fun s hs => ?_
  have htarget : Statement.targetOf? text = s.target? := by
    rw [Statement.targetOf?, hs]
    rfl
  exact htarget ▸ targets_run s signal

/-- Wherever it is stopped and whether it fails or not, a statement changes nothing but the rows
of the table that it names, and that table's file, or makes this table. A query changes no
table, and neither does a text that is no statement. While nobody else changes the files, each of
them has the columns and foreign keys of the table in memory. -/
theorem confined_of_attained (h : db.Attained) (signal : Signal) :
    (∀ s, Confined s.target? db ((run s signal).run.run db).2) ∧
    (∀ text, Confined (Statement.targetOf? text) db ((execute text signal).run.run db).2) ∧
    ∀ settings disk rs, disk.Authored → (∀ r ∈ rs, ∀ disk', r ≠ .replaceFiles disk') →
      ((fresh settings disk).afterRequests rs).Agrees := by
  refine ⟨fun s => (targets_run s signal).confined h.tended,
    fun text => (targets_execute text signal).confined h.tended, fun settings disk rs hd hrs => ?_⟩
  exact agrees_afterRequests (tended_fresh settings hd) (agrees_of_loaded rfl) hrs

def shop : Database :=
  (fresh default .empty).afterRequests
    [.execute "CREATE TABLE items (id INT PRIMARY KEY, name TEXT UNIQUE)" .never, .reopen,
      .execute "CREATE TABLE orders (id INT PRIMARY KEY, item INT)" .never,
      .insert "orders" [.int 1, .int 7]]

theorem confined_of_attained_shop :
    shop.hasFile "items" = true ∧ (shop.loaded.lookup "items").isNone = true ∧
      (shop.loaded.lookup "orders").isSome = true ∧ shop.Attained ∧
      Confined (some "orders") shop
        ((execute "UPDATE orders SET item = 8 WHERE item = 7" .never).run.run shop).2 := by
  have hempty : (fresh default .empty).Attained := .fresh default isClean_empty.authored
  have hshop : shop.Attained := hempty.afterRequests (by simp)
  have htarget : Statement.targetOf? "UPDATE orders SET item = 8 WHERE item = 7" =
      some "orders" := by decide +kernel
  have hconfined := (confined_of_attained hshop .never).2.1
    "UPDATE orders SET item = 8 WHERE item = 7"
  rw [htarget] at hconfined
  exact ⟨by decide +kernel, by decide +kernel, by decide +kernel, hshop, hconfined⟩

end Database
end RelStore
