import RelStore.Proofs.Database.Alike
import RelStore.Proofs.Database.Select

/-! Statements on two databases that are the same but for what they keep in memory. -/
namespace RelStore

variable {R : Trace → Trace → Prop} {signal : Signal}

namespace Plan

theorem alike_applyTest (hR : Trace.Grows R) (test : Option RowTest) (row : Row) :
    Watched.Alike R (applyTest test row) := by
  cases test with
  | none => exact Watched.alike_pure true
  | some test =>
    obtain ⟨keep, label⟩ := test
    cases label with
    | none => exact Watched.alike_pure (keep row)
    | some label => exact (Watched.alike_pass hR label).bind fun _ => Watched.alike_pure (keep row)

theorem alike_scanRows (hR : Trace.Grows R) (hs : signal.Respects R) (test : Option RowTest)
    (rows : List Row) : Watched.Alike R (scanRows signal test rows) := by
  induction rows with
  | nil => exact Watched.alike_pure []
  | cons row rest ih =>
    refine (Watched.alike_poll hR hs).bind fun _ => ?_
    refine (alike_applyTest hR test row).bind fun kept => ?_
    exact ih.bind fun out => Watched.alike_pure _

theorem alike_joinRows (hR : Trace.Grows R) (hs : signal.Respects R) (i j : Nat)
    (right left : List Row) : Watched.Alike R (joinRows signal i j right left) := by
  induction left with
  | nil => exact Watched.alike_pure []
  | cons row rest ih =>
    refine (Watched.alike_poll hR hs).bind fun _ => ?_
    exact ih.bind fun out => Watched.alike_pure _

theorem alike_run (hR : Trace.Grows R) (hs : signal.Respects R) (p : Plan) :
    Watched.Alike R (p.run signal) := by
  induction p with
  | scan table test => exact alike_scanRows hR hs test table.allRows
  | indexScan table column value =>
    refine (Watched.alike_poll hR hs).bind fun _ => ?_
    exact (Watched.alike_lift _).bind fun found => Watched.alike_pure found.toList
  | join l r i j ihl ihr =>
    refine ihl.bind fun left => ihr.bind fun right => ?_
    exact alike_joinRows hR hs i j right left
  | filter c p ih => exact ih.bind fun rows => alike_scanRows hR hs _ rows
  | limit n p ih => exact ih.bind fun rows => Watched.alike_pure (rows.take n)
  | marked label p ih =>
    refine ih.bind fun rows => ?_
    exact (Watched.alike_pass hR label).bind fun _ => Watched.alike_pure rows

end Plan

namespace Database
variable {α : Type} {name : String} {t u : Table} {step : Table → Value → Except Error Table}

theorem alike_matchingKeys (hR : Trace.Grows R) (hs : signal.Respects R) (h : Heading)
    (c : Condition) (entries : List (Value × Row)) :
    Watched.Alike R (matchingKeys signal h c entries) := by
  induction entries with
  | nil => exact Watched.alike_pure []
  | cons e rest ih =>
    refine (Watched.alike_poll hR hs).bind fun _ => ?_
    exact ih.bind fun keys => Watched.alike_pure _

theorem refusal_related (hR : Trace.Grows R) (change : Change) (table : String) (key : Value)
    (e : Error) {v v' : Trace} (h : R v v') :
    R (refusal change table key e v) (refusal change table key e v') := by
  unfold refusal
  split
  · exact h
  · exact hR _ _ _ h

/-- From related traces a sweep makes the same changes. -/
theorem alike_sweep (hR : Trace.Grows R) (hs : signal.Respects R) (change : Change)
    (step : Table → Value → Except Error Table) (keys : List Value) (t : Table) (n : Nat)
    {v v' : Trace} (h : R v v') :
    ∃ r u m w w', sweep signal change step keys ⟨t, n, v⟩ = (r, ⟨u, m, w⟩) ∧
      sweep signal change step keys ⟨t, n, v'⟩ = (r, ⟨u, m, w'⟩) ∧ R w w' := by
  induction keys generalizing t n v v' with
  | nil => exact ⟨.ok (), t, n, v, v', rfl, rfl, h⟩
  | cons key rest ih =>
    have hsv := hs v v' h
    have hpoll := hR .poll v v' h
    simp only [sweep, ← hsv]
    cases signal v with
    | true => exact ⟨.error .cancelled, t, n, v, v', rfl, rfl, h⟩
    | false =>
      cases step t key with
      | ok u => exact ih u (n + 1) hpoll
      | error e =>
        by_cases hf : e.errorClass = .fault
        · simp only [hf, if_true]
          exact ⟨.error e, t, n, v, v', rfl, rfl, h⟩
        · simp only [hf, if_false]
          exact ih t n (refusal_related hR change t.name key e hpoll)

/-- What each change keeps, a sweep keeps; and it changes nothing unless it counts it. -/
theorem sweep_keeps {I : Table → Prop}
    (hI : ∀ u key u', I u → step u key = .ok u' → I u') (signal : Signal) (change : Change)
    (keys : List Value) (p : Progress) (hp : I p.table) :
    I (sweep signal change step keys p).2.table ∧
      p.count ≤ (sweep signal change step keys p).2.count ∧
      ((sweep signal change step keys p).2.count = p.count →
        (sweep signal change step keys p).2.table = p.table) := by
  induction keys generalizing p with
  | nil => exact ⟨hp, Nat.le_refl _, fun _ => rfl⟩
  | cons key rest ih =>
    rw [sweep]
    split
    · exact ⟨hp, Nat.le_refl _, fun _ => rfl⟩
    · split
      · rename_i u hu
        obtain ⟨hi, hle, -⟩ := ih ⟨u, p.count + 1, .poll :: p.trace⟩ (hI _ _ _ hp hu)
        simp only at hle
        refine ⟨hi, by omega, ?_⟩
        intro heq
        omega
      · split
        · exact ⟨hp, Nat.le_refl _, fun _ => rfl⟩
        · exact ih _ hp

/-- A sweep ends early when it is told to stop, or with a fault of one of its changes. -/
theorem error_of_sweep {I : Table → Prop} (hI : ∀ u key u', I u → step u key = .ok u' → I u')
    {signal : Signal} {change : Change} {keys : List Value} {p p' : Progress} {e : Error}
    (hp : I p.table) (h : sweep signal change step keys p = (.error e, p')) :
    e = .cancelled ∨ e.errorClass = .fault ∧ ∃ u key, I u ∧ step u key = .error e := by
  induction keys generalizing p with
  | nil => cases h
  | cons key rest ih =>
    rw [sweep] at h
    by_cases hsignal : signal p.trace = true
    · rw [if_pos hsignal] at h
      cases h
      exact .inl rfl
    · rw [if_neg hsignal] at h
      cases hkey : step p.table key with
      | ok u =>
        rw [hkey] at h
        refine ih ?_ h
        exact hI p.table key u hp hkey
      | error e' =>
        rw [hkey] at h
        dsimp only at h
        by_cases hfault : e'.errorClass = .fault
        · rw [if_pos hfault] at h
          cases h
          exact .inr ⟨hfault, _, key, hp, hkey⟩
        · rw [if_neg hfault] at h
          refine ih ?_ h
          exact hp

theorem alike_planTable (hR : Trace.Grows R) (name : String) :
    Alike R (Same R) (planTable name) fun _ => Same R := by
  refine ((alike_table hR name).mono (fun _ _ h => h) fun _ _ _ h => h.1).tryCatch fun e => ?_
  split
  · exact alike_throw fun _ _ h => h
  · exact alike_throw fun _ _ h => h

theorem alike_joinTable (hR : Trace.Grows R) (j : Option Join) :
    Alike R (Same R) (joinTable j) fun _ => Same R := by
  cases j with
  | none => exact alike_pure fun _ _ h => h
  | some j => exact (alike_planTable hR j.table).bind fun t => alike_pure fun _ _ h => h

theorem alike_compute (x : Except Error α) :
    Alike R (Same R) (liftM x) fun _ => Same R :=
  (alike_lift fun _ _ h => h).mono (fun _ _ h => h) fun _ _ _ h => h.2

theorem alike_plan (hR : Trace.Grows R) (q : Query) :
    Alike R (Same R) (plan q) fun _ => Same R := by
  rw [plan_eq]
  refine (alike_planTable hR q.table).bind fun left => ?_
  refine (alike_joinTable hR q.join).bind fun right => ?_
  refine (alike_compute _).bind fun r => ?_
  exact (alike_reportAll hR r.2).bind fun _ => alike_pure fun _ _ h => h

theorem alike_select (hR : Trace.Grows R) (hs : signal.Respects R) (q : Query) :
    Alike R (Same R) (select q signal) fun _ => Same R := by
  refine (alike_plan hR q).bind fun p => ?_
  refine (alike_watch (Plan.alike_run hR hs p)).bind fun rows => ?_
  split
  · exact alike_pure fun _ _ h => h
  · refine (alike_compute _).bind fun is => ?_
    exact (alike_compute _).bind fun rows => alike_pure fun _ _ h => h

theorem Lasting.of_schema (h : Lasting t) (hu : u.Sound) (hs : u.schema = t.schema) :
    Lasting u ∧ u.name = t.name := by
  have hn : u.name = t.name := congrArg Schema.name hs
  exact ⟨⟨hu, hs ▸ h.checked, hn ▸ h.named, hn ▸ h.short⟩, hn⟩

theorem Lasting.insert {row : Row} (h : Lasting t) (hi : t.insert row = .ok u) :
    Lasting u ∧ u.name = t.name := h.of_schema (h.sound.insert hi) (Table.insert_schema hi)

theorem Lasting.edit {key : Value} {f : Row → Except Error Row} (h : Lasting t)
    (hi : t.edit key f = .ok u) : Lasting u ∧ u.name = t.name :=
  h.of_schema (h.sound.edit hi) (Table.edit_schema hi)

theorem Lasting.erase {key : Value} (h : Lasting t)
    (hi : (t.erase key).map (·.2) = .ok u) : Lasting u ∧ u.name = t.name := by
  cases he : t.erase key with
  | error e =>
    rw [he] at hi
    cases hi
  | ok r =>
    rw [he] at hi
    cases hi
    exact h.of_schema (h.sound.erase he) (Table.erase_schema he)

theorem insert_eq (name : String) (row : Row) :
    insert name row = (do
      let t ← table name
      let u ← (t.insert row : Except Error Table)
      keep name u
      save u
      pure .inserted) := by
  simp only [insert, insertKept, bind_assoc, pure_bind]

theorem alike_keep_save {P : Database → Database → Prop} (hR : Trace.Grows R) (hu : Lasting u)
    (hn : u.name = name) {f : Action α} (hf : Alike R (Same R) f fun _ => Same R)
    (hP : ∀ db db', P db db' → Same R db db') :
    Alike R P (do keep name u; save u; f) fun _ => Same R := by
  have hcommit := alike_commit hR hu hn (fun db hdb => run_save_clean hdb hu) hf
  exact hcommit.mono hP fun _ _ _ h => h

theorem alike_insert (hR : Trace.Grows R) (name : String) (row : Row) :
    Alike R (Same R) (insert name row) fun _ => Same R := by
  rw [insert_eq]
  refine (alike_table hR name).bind fun t => ?_
  refine (alike_lift fun _ _ h => h.1).bind fun u => ?_
  refine Alike.of_common (F := Lasting u ∧ u.name = name) ?_ fun hu => ?_
  · intro db db' h
    obtain ⟨ht, hn⟩ := h.2.lasting
    exact hn ▸ ht.insert h.1
  · exact alike_keep_save hR hu.1 hu.2 (alike_pure fun _ _ h => h) fun _ _ h => h.2.1

theorem alike_changeRow (hR : Trace.Grows R) {changed : Except Error Table}
    (hc : Lasting t → ∀ u, changed = .ok u → Lasting u ∧ u.name = t.name) :
    Alike R (Keeping R name t) (changeRow name t changed) fun _ => Same R := by
  refine Alike.of_common (fun _ _ h => h.lasting) fun ht => ?_
  unfold changeRow
  cases changed with
  | ok u =>
    obtain ⟨hu, hn⟩ := hc ht.1 u rfl
    have hname := hn.trans ht.2
    exact alike_keep_save hR hu hname (alike_pure fun _ _ h => h) fun _ _ h => h.1
  | error e =>
    show Alike R _ (if e.errorClass = .rowNotFound then _ else _) _
    split
    · exact (alike_save hR).bind fun _ => alike_pure fun _ _ h => h
    · exact alike_throw fun _ _ h => h.1

/-- The end of a change of rows. -/
def settle (name : String) (result : Except Error Unit) (u : Table) (n : Nat) : Action Nat := do
  keep name u
  match result with
  | .ok _ => do
    save u
    pure n
  | .error e => do
    if 0 < n then save u
    throw e

theorem changeRows_eq (signal : Signal) (change : Change) (name : String) (t : Table)
    (c : Condition) (step : Table → Value → Except Error Table) :
    changeRows signal change name t c step = (do
      let keys ← watch (matchingKeys signal (.ofSchema t.schema) c t.entries)
      let db ← get
      let r := sweep signal change step keys ⟨t, 0, db.trace⟩
      modify fun db => { db with trace := r.2.trace }
      settle name r.1 r.2.table r.2.count) := by
  unfold changeRows settle
  refine bind_congr fun keys => bind_congr fun db => ?_
  rcases sweep signal change step keys ⟨t, 0, db.trace⟩ with ⟨r, p⟩
  refine bind_congr fun _ => bind_congr fun _ => ?_
  cases r with
  | ok a => rfl
  | error e =>
    by_cases hn : 0 < p.count
    · simp [hn]
    · simp [hn]

/-- A table that was changed is saved; one that was not is what it was. -/
theorem alike_settle (hR : Trace.Grows R) (result : Except Error Unit) {n : Nat}
    (hu : Lasting u) (hn : u.name = name) (hsame : n = 0 → u = t) :
    Alike R (Keeping R name t) (settle name result u n) fun _ => Same R := by
  unfold settle
  cases result with
  | ok a =>
    exact alike_keep_save hR hu hn (alike_pure fun _ _ h => h) fun _ _ h => h.1
  | error e =>
    by_cases hpos : 0 < n
    · simp only [hpos, if_true]
      exact alike_keep_save hR hu hn (alike_throw fun _ _ h => h) fun _ _ h => h.1
    · simp only [hpos, if_false]
      have hut : u = t := hsame (by omega)
      subst hut
      intro db db' h
      exact ⟨.error e, _, _, rfl, rfl, h.keep⟩

theorem alike_changeRows (hR : Trace.Grows R) (hs : signal.Respects R) (change : Change)
    (c : Condition)
    (hstep : ∀ u key u', Lasting u → step u key = .ok u' → Lasting u' ∧ u'.name = u.name) :
    Alike R (Keeping R name t) (changeRows signal change name t c step) fun _ => Same R := by
  rw [changeRows_eq]
  have hw := alike_matchingKeys hR hs (.ofSchema t.schema) c t.entries
  refine (alike_watch_keeping hw).bind fun keys => ?_
  intro db db' h
  obtain ⟨ht, hn⟩ := h.lasting
  obtain ⟨r, u, m, w, w', hw, hw', hww⟩ := alike_sweep hR hs change step keys t 0 h.1.trace
  have hI : ∀ u key u', (Lasting u ∧ u.name = name) → step u key = .ok u' →
      Lasting u' ∧ u'.name = name := by
    intro u key u' hu hk
    obtain ⟨hl, he⟩ := hstep u key u' hu.1 hk
    exact ⟨hl, he.trans hu.2⟩
  have hkeeps := sweep_keeps hI signal change keys ⟨t, 0, db.trace⟩ ⟨ht, hn⟩
  rw [hw] at hkeeps
  obtain ⟨⟨hu, hun⟩, -, hsame⟩ := hkeeps
  have hkeep : Keeping R name t { db with trace := w } { db' with trace := w' } :=
    ⟨h.1.with_trace hww, h.2⟩
  obtain ⟨s, db₁, db₁', h₁, h₁', he⟩ := alike_settle hR r hu hun hsame _ _ hkeep
  refine ⟨s, db₁, db₁', ?_, ?_, he⟩
  · rw [run_bind, run_get]
    simp only [hw, run_bind, run_modify]
    exact h₁
  · rw [run_bind, run_get]
    simp only [hw', run_bind, run_modify]
    exact h₁'

end Database
end RelStore
