import RelStore.Proofs.Database.Actions
import RelStore.Proofs.Trace

/-! What an action ensures, on every database with some property: a condition on its answer
and on the database it leaves, and another one in case it ends with an error. -/
namespace RelStore
variable {α β : Type}

def Meets (A : α → Prop) (B : Error → Prop) : Except Error α → Prop
  | .ok a => A a
  | .error e => B e

section
variable {A A' : α → Prop} {B B' : Error → Prop} {C : β → Prop}

theorem meets_iff {x : Except Error α} :
    Meets A B x ↔ (∀ a, x = .ok a → A a) ∧ ∀ e, x = .error e → B e := by
  cases x with
  | ok a => simp [Meets]
  | error e => simp [Meets]

theorem Meets.mono {x : Except Error α} (hx : Meets A B x) (hA : ∀ a, A a → A' a)
    (hB : ∀ e, B e → B' e) : Meets A' B' x := by
  cases x with
  | ok a => exact hA a hx
  | error e => exact hB e hx

theorem Meets.of_both {p : Prop} {x : Except Error α} (h : Meets (fun _ => p) (fun _ => p) x) :
    p := by
  cases x with
  | ok a => exact h
  | error e => exact h

theorem Meets.bind {x : Except Error α} {f : α → Except Error β} (hx : Meets A B x)
    (hf : ∀ a, A a → Meets C B (f a)) : Meets C B (x >>= f) := by
  cases x with
  | ok a => exact hf a hx
  | error e => exact hx

theorem meets_ensure {p : Prop} [Decidable p] {e : Error} (he : B e) :
    Meets (fun _ => p) B (ensure p e) := by
  by_cases hp : p
  · rw [ensure_of hp]
    exact hp
  · rw [ensure, if_neg hp]
    exact he

end

namespace Watched

/-- Whatever was done before, a run answers as `A` says or fails as `B` says. -/
def Ensures (w : Watched α) (A : α → Prop) (B : Error → Prop) : Prop :=
  ∀ t, Meets A B (w.run.run t).1

variable {A : α → Prop} {B : Error → Prop} {C : β → Prop}

theorem Ensures.bind {w : Watched α} {f : α → Watched β} (hw : w.Ensures A B)
    (hf : ∀ a, A a → (f a).Ensures C B) : (w >>= f).Ensures C B := by
  intro t
  have h := hw t
  rw [run_bind]
  rcases hrun : w.run.run t with ⟨e | a, u⟩
  · rw [hrun] at h
    exact h
  · rw [hrun] at h
    exact hf a h u

theorem ensures_pure {a : α} (h : A a) : Ensures (pure a) A B := fun _ => h

theorem ensures_lift {x : Except Error α} (h : Meets A B x) : Ensures (liftM x) A B := by
  intro t
  rw [run_lift]
  exact h

theorem ensures_pass (label : Nat) : (pass label).Ensures (fun _ => True) B := fun _ => trivial

theorem ensures_poll {signal : Signal} (h : B .cancelled) :
    (poll signal).Ensures (fun _ => True) B := by
  intro t
  rw [run_poll]
  cases signal t with
  | true => exact h
  | false => exact trivial

end Watched

namespace Database
variable {P P' : Database → Prop} {Q Q' : α → Database → Prop} {S : β → Database → Prop}
  {E E' : Error → Database → Prop}

/-- On a database with `P` an action answers as `Q` says of the answer and of what it
leaves, or fails as `E` says of the error and of what it leaves. -/
def Ensures (P : Database → Prop) (x : Action α) (Q : α → Database → Prop)
    (E : Error → Database → Prop) : Prop :=
  ∀ db, P db → Meets (Q · (x.run.run db).2) (E · (x.run.run db).2) (x.run.run db).1

theorem Ensures.mono {x : Action α} (hx : Ensures P x Q E) (hP : ∀ db, P' db → P db)
    (hQ : ∀ a db, Q a db → Q' a db) (hE : ∀ e db, E e db → E' e db) : Ensures P' x Q' E' :=
  fun db h => (hx db (hP db h)).mono (fun a => hQ a _) fun e => hE e _

theorem Ensures.weaken {x : Action α} (hx : Ensures P x Q E) (hQ : ∀ a db, Q a db → Q' a db) :
    Ensures P x Q' E := hx.mono (fun _ h => h) hQ fun _ _ h => h

theorem Ensures.strengthen {x : Action α} (hx : Ensures P x Q E) (hP : ∀ db, P' db → P db) :
    Ensures P' x Q E := hx.mono hP (fun _ _ h => h) fun _ _ h => h

theorem Ensures.of_error {x : Action α} {e : Error} {db db' : Database} (hx : Ensures P x Q E)
    (h : P db) (hrun : x.run.run db = (.error e, db')) : E e db' := by
  have hx := hx db h
  rw [hrun] at hx
  exact hx

theorem Ensures.of_ok {x : Action α} {a : α} {db db' : Database} (hx : Ensures P x Q E)
    (h : P db) (hrun : x.run.run db = (.ok a, db')) : Q a db' := by
  have hx := hx db h
  rw [hrun] at hx
  exact hx

/-- What holds of every database with `P` may be used of the action. -/
theorem Ensures.of_common {x : Action α} {F : Prop} (hF : ∀ db, P db → F)
    (hx : F → Ensures P x Q E) : Ensures P x Q E := fun db h => hx (hF db h) db h

theorem Ensures.bind {x : Action α} {f : α → Action β} (hx : Ensures P x Q E)
    (hf : ∀ a, Ensures (Q a) (f a) S E) : Ensures P (x >>= f) S E := by
  intro db h
  have hx := hx db h
  rw [run_bind]
  rcases hrun : x.run.run db with ⟨e | a, db₁⟩
  · rw [hrun] at hx
    exact hx
  · rw [hrun] at hx
    exact hf a db₁ hx

theorem Ensures.tryCatch {x : Action α} {f : Error → Action α} (hx : Ensures P x Q E')
    (hf : ∀ e, Ensures (E' e) (f e) Q E) : Ensures P (tryCatch x f) Q E := by
  intro db h
  have hx := hx db h
  rw [run_tryCatch]
  rcases hrun : x.run.run db with ⟨e | a, db₁⟩
  · rw [hrun] at hx
    exact hf e db₁ hx
  · rw [hrun] at hx
    exact hx

theorem ensures_pure {a : α} (h : ∀ db, P db → Q a db) : Ensures P (pure a) Q E := h

theorem ensures_throw {e : Error} (h : ∀ db, P db → E e db) : Ensures P (throw e) Q E := h

theorem ensures_lift {A : α → Prop} {B : Error → Prop} {x : Except Error α} (hx : Meets A B x)
    (hE : ∀ e db, B e → P db → E e db) : Ensures P (liftM x) (fun a db => A a ∧ P db) E := by
  intro db h
  rw [run_lift]
  exact hx.mono (fun a ha => ⟨ha, h⟩) fun e he => hE e db he h

/-- What was computed may be used in what follows. -/
theorem ensures_lift_eq (x : Except Error α) (hE : ∀ e db, P db → E e db) :
    Ensures P (liftM x) (fun a db => x = .ok a ∧ P db) E :=
  ensures_lift (meets_iff.2 ⟨fun _ h => h, fun _ _ => trivial⟩) fun e db (_ : True) h => hE e db h

theorem ensures_get {f : Database → Action α} (hf : ∀ db, Ensures P (f db) Q E) :
    Ensures P (get >>= f) Q E := by
  intro db h
  rw [run_bind, run_get]
  exact hf db db h

/-- The database that is asked for is the one there is. -/
theorem ensures_get_eq {f : Database → Action α}
    (hf : ∀ db, P db → Ensures (· = db) (f db) Q E) : Ensures P (get >>= f) Q E := by
  intro db h
  rw [run_bind, run_get]
  exact hf db h db rfl

theorem ensures_modify {f : Database → Database} {Q : PUnit → Database → Prop}
    (h : ∀ db, P db → Q ⟨⟩ (f db)) : Ensures P (modify f) Q E := h

def Blind (P : Database → Prop) : Prop := ∀ db trace, P db → P { db with trace }

theorem ensures_watch {A : α → Prop} {B : Error → Prop} {w : Watched α} (hP : Blind P)
    (hw : w.Ensures A B) (hE : ∀ e db, B e → P db → E e db) :
    Ensures P (watch w) (fun a db => A a ∧ P db) E := by
  intro db h
  rw [run_watch]
  have hP' := hP db (w.run.run db.trace).2 h
  exact (hw db.trace).mono (fun a ha => ⟨ha, hP'⟩) fun e he => hE e _ he hP'

/-- A run that only leaves a trace keeps what does not see it. -/
theorem Blind.ensures_watch (hP : Blind P) (w : Watched α) :
    Ensures P (watch w) (fun _ => P) fun _ => P := by
  intro db h
  rw [run_watch]
  have hP' := hP db (w.run.run db.trace).2 h
  exact meets_iff.2 ⟨fun _ _ => hP', fun _ _ => hP'⟩

theorem ensures_report (hP : Blind P) (e : Event) : Ensures P (report e) (fun _ => P) E :=
  fun db h => hP db _ h

theorem ensures_reportAll (hP : Blind P) (es : List Event) :
    Ensures P (reportAll es) (fun _ => P) E := by
  induction es with
  | nil => exact ensures_pure fun _ h => h
  | cons e es ih => exact (ensures_report hP e).bind fun _ => ih

theorem ensures_poll {signal : Signal} (hP : Blind P) (hE : ∀ db, P db → E .cancelled db) :
    Ensures P (poll signal) (fun _ => P) E := by
  have hpoll : (Watched.poll signal).Ensures (fun _ => True) (· = .cancelled) :=
    Watched.ensures_poll rfl
  refine (ensures_watch hP hpoll fun e db he h => ?_).weaken fun _ _ h => h.2
  subst he
  exact hE db h

/-- A save that fails does so because of the file system. -/
theorem ensures_save {t : Table} (hP : ∀ db disk trace, P db → P { db with disk, trace })
    (hE : ∀ db, P db → E .io db) : Ensures P (save t) (fun _ => P) E := by
  intro db h
  rw [run_save]
  rcases db.disk.save (tableFile t.name) (Document.ofTable t).encode with ⟨_ | _, disk⟩
  · exact hE _ (hP db disk db.trace h)
  · exact hP db disk _ h

end Database
end RelStore
