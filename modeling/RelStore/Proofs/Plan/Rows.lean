import RelStore.Plan
import RelStore.Proofs.Trace

/-! The rows of a plan as a function of its tables, and that a run without a signal makes
these rows. -/
namespace RelStore
namespace Plan

def passes (test : Option RowTest) (row : Row) : Bool := test.all fun t => t.keep row

/-- The rows of a plan, with no regard to polls and marks. -/
def rows : Plan → Except Error (List Row)
  | scan t test => .ok (t.allRows.filter (passes test))
  | indexScan t column value => do
    let found ← t.find column value
    pure found.toList
  | join l r i j => do
    let left ← l.rows
    let right ← r.rows
    pure (left.flatMap (joinRow i j right))
  | filter c p => do
    let rows ← p.rows
    pure (rows.filter fun row => c.holds p.heading row)
  | limit n p => do
    let rows ← p.rows
    pure (rows.take n)
  | marked _ p => p.rows

theorem run_applyTest (test : Option RowTest) (row : Row) (t : Trace) :
    ∃ t', (applyTest test row).run.run t = (.ok (passes test row), t') := by
  cases test with
  | none => exact ⟨t, rfl⟩
  | some test =>
    obtain ⟨keep, label⟩ := test
    cases label with
    | none => exact ⟨t, rfl⟩
    | some label => exact ⟨.mark label :: t, rfl⟩

theorem run_scanRows_never (test : Option RowTest) (rows : List Row) (t : Trace) :
    ∃ t', (scanRows .never test rows).run.run t = (.ok (rows.filter (passes test)), t') := by
  induction rows generalizing t with
  | nil => exact ⟨t, rfl⟩
  | cons row rest ih =>
    obtain ⟨u, hu⟩ := run_applyTest test row (.poll :: t)
    obtain ⟨t', ht'⟩ := ih u
    refine ⟨t', ?_⟩
    rw [scanRows, Watched.run_bind, Watched.run_poll_never]
    show (applyTest test row >>= _).run.run (.poll :: t) = _
    rw [Watched.run_bind, hu]
    show (scanRows .never test rest >>= _).run.run u = _
    rw [Watched.run_bind, ht', List.filter_cons]
    rfl

theorem run_joinRows_never (i j : Nat) (right left : List Row) (t : Trace) :
    ∃ t', (joinRows .never i j right left).run.run t =
      (.ok (left.flatMap (joinRow i j right)), t') := by
  induction left generalizing t with
  | nil => exact ⟨t, rfl⟩
  | cons row rest ih =>
    obtain ⟨t', ht'⟩ := ih (.poll :: t)
    refine ⟨t', ?_⟩
    rw [joinRows, Watched.run_bind, Watched.run_poll_never]
    show (joinRows .never i j right rest >>= _).run.run (.poll :: t) = _
    rw [Watched.run_bind, ht', List.flatMap_cons]
    rfl

/-- With a signal that is never given, a plan makes its rows. -/
theorem run_never (p : Plan) (t : Trace) : ∃ t', (p.run .never).run.run t = (p.rows, t') := by
  induction p generalizing t with
  | scan table test => exact run_scanRows_never test table.allRows t
  | indexScan table column value =>
    refine ⟨.poll :: t, ?_⟩
    rw [run, Watched.run_bind, Watched.run_poll_never]
    show (liftM (table.find column value) >>= _ : Watched _).run.run (.poll :: t) = _
    rw [Watched.run_bind, Watched.run_lift, rows]
    cases table.find column value <;> rfl
  | join l r i j ihl ihr =>
    obtain ⟨u, hu⟩ := ihl t
    obtain ⟨v, hv⟩ := ihr u
    rw [run, Watched.run_bind, hu, rows]
    cases hl : l.rows with
    | error e => exact ⟨u, rfl⟩
    | ok left =>
      show ∃ t', (r.run .never >>= _).run.run u = _
      rw [Watched.run_bind, hv]
      cases hr : r.rows with
      | error e => exact ⟨v, rfl⟩
      | ok right => exact run_joinRows_never i j right left v
  | filter c p ih =>
    obtain ⟨u, hu⟩ := ih t
    rw [run, Watched.run_bind, hu, rows]
    cases hp : p.rows with
    | error e => exact ⟨u, rfl⟩
    | ok made => exact run_scanRows_never (some ⟨fun row => c.holds p.heading row, none⟩) made u
  | limit n p ih =>
    obtain ⟨u, hu⟩ := ih t
    refine ⟨u, ?_⟩
    rw [run, Watched.run_bind, hu, rows]
    cases p.rows <;> rfl
  | marked label p ih =>
    obtain ⟨u, hu⟩ := ih t
    rw [run, Watched.run_bind, hu, rows]
    cases p.rows with
    | error e => exact ⟨u, rfl⟩
    | ok made => exact ⟨.mark label :: u, rfl⟩

end Plan
end RelStore
