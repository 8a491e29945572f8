import RelStore.Proofs.Interrupted
import RelStore.Proofs.Plan.Rows

/-! A query that is told to stop gives all its rows or none. Every node takes the rows of
its inputs whole, so it is enough that no loop over rows goes on past the signal. -/
namespace RelStore
namespace Plan
open Watched Trace

variable {signal : Signal}

theorem interrupted_applyTest (test : Option RowTest) (row : Row) :
    Interrupted signal (applyTest test row) (applyTest test row) := by
  cases test with
  | none => exact interrupted_pure true
  | some test =>
    obtain ⟨keep, label⟩ := test
    cases label with
    | none => exact interrupted_pure (keep row)
    | some label => exact (interrupted_pass label).bind fun _ => interrupted_pure (keep row)

theorem interrupted_scanRows (test : Option RowTest) (rows : List Row) :
    Interrupted signal (scanRows signal test rows) (scanRows .never test rows) := by
  induction rows with
  | nil => exact interrupted_pure []
  | cons row rest ih =>
    refine interrupted_poll.bind fun _ => ?_
    refine (interrupted_applyTest test row).bind fun kept => ?_
    exact ih.bind fun out => interrupted_pure _

theorem interrupted_joinRows (i j : Nat) (right left : List Row) :
    Interrupted signal (joinRows signal i j right left) (joinRows .never i j right left) := by
  induction left with
  | nil => exact interrupted_pure []
  | cons row rest ih =>
    refine interrupted_poll.bind fun _ => ?_
    exact ih.bind fun out => interrupted_pure _

theorem interrupted_run (p : Plan) : Interrupted signal (p.run signal) (p.run .never) := by
  induction p with
  | scan table test => exact interrupted_scanRows test table.allRows
  | indexScan table column value =>
    refine interrupted_poll.bind fun _ => ?_
    exact (interrupted_lift _).bind fun found => interrupted_pure found.toList
  | join l r i j ihl ihr =>
    refine ihl.bind fun left => ihr.bind fun right => ?_
    exact interrupted_joinRows i j right left
  | filter c p ih => exact ih.bind fun rows => interrupted_scanRows _ rows
  | limit n p ih => exact ih.bind fun rows => interrupted_pure (rows.take n)
  | marked label p ih =>
    refine ih.bind fun rows => ?_
    exact (interrupted_pass label).bind fun _ => interrupted_pure rows

theorem errorClass_of_rows {p : Plan} {e : Error} (h : p.rows = .error e) :
    e.errorClass = .columnNotFound ∨ e.errorClass = .plan := by
  induction p generalizing e with
  | scan table test => cases h
  | indexScan table column value =>
    simp only [rows, Table.find] at h
    split at h
    · split at h
      · cases h
      · cases h
        exact .inr rfl
    · cases h
      exact .inl rfl
  | join l r i j ihl ihr =>
    rcases bind_eq_error_iff.1 h with h | ⟨left, -, h⟩
    · exact ihl h
    · rcases bind_eq_error_iff.1 h with h | ⟨right, -, h⟩
      · exact ihr h
      · cases h
  | filter c p ih | limit n p ih =>
    rcases bind_eq_error_iff.1 h with h | ⟨made, -, h⟩
    · exact ih h
    · cases h
  | marked label p ih => exact ih h

/-- Under a signal a plan is cancelled or ends as it would undisturbed, with the same rows
or error. It is cancelled if the signal is given at one of the polls it would make. -/
theorem run_cancelled_or_undisturbed (p : Plan) (signal : Signal) (t : Trace) :
    let undisturbed := (p.run .never).run.run t
    let disturbed := (p.run signal).run.run t
    (disturbed.1 = .error .cancelled ∨ disturbed = undisturbed) ∧
      (disturbed.1 = .error .cancelled ↔ ∃ u, Polled t undisturbed.2 u ∧ signal u = true) := by
  obtain ⟨t', hrows⟩ := run_never p t
  have hne : p.rows ≠ .error .cancelled := by
    intro h
    rcases errorClass_of_rows h with h | h
    · cases h
    · cases h
  have hinterrupted : Interrupted signal (p.run signal) (p.run .never) := interrupted_run p
  have hway := (hinterrupted t p.rows t' hrows).2
  intro undisturbed disturbed
  have hundisturbed : undisturbed = (p.rows, t') := hrows
  rw [hundisturbed]
  obtain ⟨hquiet, hrun⟩ | ⟨u, hu, hrun⟩ := hway
  · have hdisturbed : disturbed = (p.rows, t') := hrun
    rw [hdisturbed]
    refine ⟨.inr rfl, fun h => absurd h hne, ?_⟩
    rintro ⟨u, hpolled, hgiven⟩
    rw [hquiet u hpolled] at hgiven
    cases hgiven
  · have hdisturbed : disturbed = (.error .cancelled, u) := hrun
    rw [hdisturbed]
    exact ⟨.inl rfl, fun _ => ⟨u, hu.polled, hu.given⟩, fun _ => rfl⟩

end Plan
end RelStore
