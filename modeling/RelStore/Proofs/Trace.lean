import RelStore.Trace

/-! What the parts of a watched run leave in the trace. -/
namespace RelStore
namespace Watched
variable {α β : Type}

theorem run_bind (x : Watched α) (f : α → Watched β) (t : Trace) :
    (x >>= f).run.run t = match x.run.run t with
      | (.ok a, t') => (f a).run.run t'
      | (.error e, t') => (.error e, t') := by
  rw [ExceptT.run_bind, StateT.run_bind]
  show (match x.run.run t with | (r, t') => _ : Except Error β × Trace) = _
  rcases x.run.run t with ⟨_ | _, t'⟩ <;> rfl

@[simp] theorem run_pure (a : α) (t : Trace) : (pure a : Watched α).run.run t = (.ok a, t) := rfl

@[simp] theorem run_lift (x : Except Error α) (t : Trace) :
    (liftM x : Watched α).run.run t = (x, t) := by
  cases x <;> rfl

@[simp] theorem run_pass (label : Nat) (t : Trace) :
    (pass label).run.run t = (.ok (), .mark label :: t) := rfl

/-- A poll is noted in the trace unless it stops the run. -/
@[simp] theorem run_poll (signal : Signal) (t : Trace) :
    (poll signal).run.run t =
      if signal t then (.error .cancelled, t) else (.ok (), .poll :: t) := by
  show ((do if signal t then throw .cancelled
            modify (.poll :: ·) : Watched Unit).run.run t) = _
  cases signal t <;> rfl

theorem run_poll_never (t : Trace) :
    (poll .never).run.run t = (.ok (), .poll :: t) := by
  rw [run_poll]
  rfl

end Watched
end RelStore
