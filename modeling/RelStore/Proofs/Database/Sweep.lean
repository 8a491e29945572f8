import RelStore.Proofs.Database.Assign
import RelStore.Proofs.Database.Found
import RelStore.Proofs.Table.Accepted

/-! Changes that go through the rows of a table and are told to stop at one of their polls:
which rows they have changed by then, and that the file holds what is in memory. -/
namespace RelStore

/-- Of `size` polls from the `a`th on, the first `m` are answered with no and the next one,
if there is one, with yes. -/
structure Until (stop : Nat → Bool) (a m size : Nat) : Prop where
  quiet : ∀ j, j < m → stop (a + j) = false
  le : m ≤ size
  given : m < size → stop (a + m) = true

namespace Until
variable {stop : Nat → Bool} {a m x y size : Nat}

theorem stopped (h : Until stop a 0 (size + 1)) : stop a = true := h.given (Nat.succ_pos size)

theorem next (h : Until stop a (m + 1) (size + 1)) :
    stop a = false ∧ Until stop (a + 1) m size := by
  refine ⟨h.quiet 0 (Nat.succ_pos m), fun j hj => ?_, Nat.le_of_succ_le_succ h.le, fun hm => ?_⟩
  · rw [Nat.add_right_comm]
    exact h.quiet (j + 1) (Nat.succ_lt_succ hj)
  · rw [Nat.add_right_comm]
    exact h.given (Nat.succ_lt_succ hm)

theorem within (h : Until stop a m (x + y)) (hm : m < x) : Until stop a m x :=
  ⟨h.quiet, hm.le, fun _ => h.given (by omega)⟩

/-- A run that goes through its first part. -/
theorem through (h : Until stop a m (x + y)) (hm : x ≤ m) :
    Until stop a x x ∧ Until stop (a + x) (m - x) y := by
  have hle := h.le
  refine ⟨⟨fun j hj => h.quiet j (by omega), Nat.le_refl x, fun hx => by omega⟩, ?_⟩
  refine ⟨fun j hj => ?_, by omega, fun hlt => ?_⟩
  · rw [Nat.add_assoc]
    exact h.quiet (x + j) (by omega)
  · rw [Nat.add_assoc, Nat.add_sub_cancel' hm]
    exact h.given (by omega)

theorem never : Until (fun _ => false) a size size :=
  ⟨fun _ _ => rfl, Nat.le_refl size, fun h => absurd h (Nat.lt_irrefl size)⟩

def answer {α : Type} (m size : Nat) (a : α) : Except Error α :=
  if m < size then .error .cancelled else .ok a

theorem answer_of_lt {α : Type} (a : α) (h : m < size) : answer m size a = .error .cancelled :=
  if_pos h

theorem answer_self {α : Type} (a : α) : answer size size a = .ok a := if_neg (Nat.lt_irrefl size)

theorem map_answer {α β : Type} (f : α → β) (a : α) :
    (answer m size a).map f = answer m size (f a) := by
  unfold answer
  split <;> rfl

theorem answer_add {α : Type} (a : α) (hm : x ≤ m) : answer (m - x) y a = answer m (x + y) a := by
  unfold answer
  by_cases h : m < x + y
  · rw [if_pos h, if_pos (by omega)]
  · rw [if_neg h, if_neg (by omega)]

end Until

theorem Trace.polls_poll (v : Trace) : polls (.poll :: v) = polls v + 1 := by
  rw [polls, List.countP_cons_of_pos (by simp)]
  rfl

namespace Database
variable {stop : Nat → Bool} {m : Nat} {s : Schema} {call : Value → Table.Call} {name : String}
  {db : Database} {t u : Table} {c : Condition}

theorem run_matchingKeys_until (h : Heading) (c : Condition) (entries : List (Value × Row))
    {v : Trace} (hu : Until stop v.polls m entries.length) :
    ∃ v', (matchingKeys (.atPolls stop) h c entries).run.run v =
        (Until.answer m entries.length ((entries.filter fun e => c.holds h e.2).map (·.1)), v') ∧
      v'.polls = v.polls + m := by
  induction entries generalizing m v with
  | nil =>
    obtain rfl : m = 0 := Nat.le_zero.1 hu.le
    exact ⟨v, rfl, rfl⟩
  | cons e rest ih =>
    obtain ⟨key, row⟩ := e
    have hrun : (matchingKeys (.atPolls stop) h c ((key, row) :: rest)).run.run v =
        if stop v.polls then (.error .cancelled, v)
        else ((matchingKeys (.atPolls stop) h c rest >>= fun keys =>
          pure (if c.holds h row then key :: keys else keys) : Watched _)).run.run (.poll :: v) := by
      rw [matchingKeys, Watched.run_bind, Watched.run_poll, Signal.atPolls]
      cases stop v.polls <;> rfl
    cases m with
    | zero =>
      rw [hrun, hu.stopped]
      exact ⟨v, rfl, rfl⟩
    | succ m =>
      obtain ⟨hgo, hnext⟩ := hu.next
      rw [← Trace.polls_poll] at hnext
      obtain ⟨v', hrest, hpolls⟩ := ih hnext
      refine ⟨v', ?_, ?_⟩
      · rw [hrun, hgo, if_neg Bool.false_ne_true, Watched.run_bind, hrest, List.filter_cons]
        by_cases hm : m < rest.length
        · simp only [Until.answer, hm, List.length_cons, Nat.succ_lt_succ_iff, if_true]
        · simp only [Until.answer, hm, List.length_cons, Nat.succ_lt_succ_iff, if_false]
          by_cases hc : c.holds h row = true
          · simp only [hc, if_true, List.map_cons]
            rfl
          · simp only [hc, if_false, Bool.false_eq_true]
            rfl
      · rw [hpolls, Trace.polls_poll]
        omega

theorem run_matching_until (t : Table) (c : Condition) {v : Trace}
    (hu : Until stop v.polls m t.size) :
    ∃ v', (matchingKeys (.atPolls stop) (.ofSchema t.schema) c t.entries).run.run v =
        (Until.answer m t.size (Table.matching c t), v') ∧ v'.polls = v.polls + m :=
  run_matchingKeys_until (.ofSchema t.schema) c t.entries hu

theorem polls_refusal (change : Change) (table : String) (key : Value) (e : Error) (v : Trace) :
    (refusal change table key e v).polls = v.polls := by
  unfold refusal
  split
  · rfl
  · exact Trace.polls_event _ v

/-- A sweep that counts no change makes none. -/
theorem sweep_same {signal : Signal} {change : Change} {step : Table → Value → Except Error Table}
    {keys : List Value} {p q : Progress} {r : Except Error Unit}
    (h : sweep signal change step keys p = (r, q)) (hcount : q.count = p.count) :
    q.table = p.table := by
  have hkept : ∀ u key u', True → step u key = .ok u' → True := fun _ _ _ _ _ => trivial
  have hkeeps := sweep_keeps hkept signal change keys p trivial
  rw [h] at hkeeps
  exact hkeeps.2.2 hcount

theorem sweep_until (hc : Table.RowChange s call) (change : Change) {keys : List Value}
    {p : Progress} (hp : p.table.Sound) (hs : p.table.schema = s)
    (hu : Until stop p.trace.polls m keys.length) :
    ∃ q, sweep (.atPolls stop) change (fun t key => t.attempt (call key)) keys p =
        (Until.answer m keys.length (), q) ∧
      q.table = Table.swept call p.table (keys.take m) ∧
      q.count = p.count + (Table.accepted call p.table (keys.take m)).length ∧
      q.trace.polls = p.trace.polls + m := by
  induction keys generalizing m p with
  | nil =>
    obtain rfl : m = 0 := Nat.le_zero.1 hu.le
    exact ⟨p, rfl, rfl, rfl, rfl⟩
  | cons key rest ih =>
    cases m with
    | zero =>
      refine ⟨p, ?_, rfl, rfl, rfl⟩
      rw [sweep, Signal.atPolls, if_pos hu.stopped]
      rfl
    | succ m =>
      obtain ⟨hgo, hnext⟩ := hu.next
      -- either way the loop goes on with the table after the change was tried
      have hstep : ∃ p', p'.table = p.table.after (call key) ∧
          (∀ keys, p'.count + (Table.accepted call p'.table keys).length =
            p.count + (Table.accepted call p.table (key :: keys)).length) ∧
          p'.trace.polls = p.trace.polls + 1 ∧
          sweep (.atPolls stop) change (fun t key => t.attempt (call key)) (key :: rest) p =
            sweep (.atPolls stop) change (fun t key => t.attempt (call key)) rest p' := by
        rw [sweep, Signal.atPolls, hgo, if_neg Bool.false_ne_true]
        cases ha : p.table.attempt (call key) with
        | ok u =>
          refine ⟨⟨u, p.count + 1, .poll :: p.trace⟩, (Table.after_of_ok ha).symm, fun keys => ?_,
            Trace.polls_poll _, rfl⟩
          rw [Table.accepted_cons_of_ok ha, List.length_cons]
          exact Nat.add_right_comm _ _ _
        | error e =>
          have hclass : e.errorClass ≠ .fault := hc.refused hp hs ha
          refine ⟨{ p with trace := refusal change p.table.name key e (.poll :: p.trace) },
            (Table.after_of_error ha).symm, fun keys => ?_, ?_, ?_⟩
          · rw [Table.accepted_cons_of_error ha]
          · rw [polls_refusal, Trace.polls_poll]
          · show (if e.errorClass = .fault then _ else _) = _
            rw [if_neg hclass]
      obtain ⟨p', htable, hcount, hpolls, hsweep⟩ := hstep
      have hp' : p'.table.Sound := htable ▸ hp.after (call key)
      have hs' : p'.table.schema = s := by rw [htable, Table.after_schema, hs]
      obtain ⟨q, hq, hqt, hqc, hqp⟩ := ih hp' hs' (hpolls ▸ hnext)
      refine ⟨q, ?_, ?_, ?_, ?_⟩
      · rw [hsweep, hq]
        simp only [Until.answer, List.length_cons, Nat.succ_lt_succ_iff]
      · rw [hqt, htable, List.take_succ_cons, Table.swept_cons]
      · rw [hqc, List.take_succ_cons, hcount]
      · rw [hqp, hpolls]
        omega

end Database
end RelStore
