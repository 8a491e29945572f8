import RelStore.Proofs.Database.Safe
import RelStore.Proofs.Plan.Operands

/-! Queries whose join has its operands the other way round. If one of the operands is qualified
by a table of the join, they answer the same. -/
namespace RelStore

def Query.swap (q : Query) : Query := { q with join := q.join.map Join.swap }

namespace Plan
variable {q : Query} {left right : Table} {j j' : Join}

theorem choose_congr (h : operands left.name right.name j' = operands left.name right.name j) :
    choose q left (some (j', right)) = choose q left (some (j, right)) := by
  simp only [choose, chooseRows, chooseJoin, h]

theorem choose_of_oneSided (h : OneSided left.name right.name j) :
    choose q left (some (j, right)) = .error (.oneSidedJoin j.left j.right) := by
  rw [choose, chooseRows, chooseJoin, operands_of_oneSided h]
  rfl

end Plan

namespace Database
variable {α β : Type} {db : Database} {q : Query} {j : Join} {signal : Signal}

/-- Two runs leave the same database, with the same answer or with errors of one class. -/
def Concur (r r' : Except Error α × Database) : Prop :=
  r'.2 = r.2 ∧ ((∃ a, r.1 = .ok a ∧ r'.1 = .ok a) ∨
    ∃ e e', r.1 = .error e ∧ r'.1 = .error e' ∧ e'.errorClass = e.errorClass)

theorem Concur.refl (r : Except Error α × Database) : Concur r r := by
  rcases r with ⟨e | a, db⟩
  · exact ⟨rfl, .inr ⟨e, e, rfl, rfl, rfl⟩⟩
  · exact ⟨rfl, .inl ⟨a, rfl, rfl⟩⟩

theorem Concur.bind {x x' : Action α} (h : Concur (x.run.run db) (x'.run.run db))
    (f : α → Action β) : Concur ((x >>= f).run.run db) ((x' >>= f).run.run db) := by
  rw [run_bind, run_bind]
  rcases hx : x.run.run db with ⟨r, db₁⟩
  rcases hx' : x'.run.run db with ⟨r', db₂⟩
  rw [hx, hx'] at h
  obtain ⟨rfl, ⟨a, rfl, rfl⟩ | ⟨e, e', rfl, rfl, hclass⟩⟩ := h
  · exact .refl _
  · exact ⟨rfl, .inr ⟨e, e', rfl, rfl, hclass⟩⟩

theorem concur_bind {x : Action α} {f f' : α → Action β}
    (h : ∀ a db₁, x.run.run db = (.ok a, db₁) → Concur ((f a).run.run db₁) ((f' a).run.run db₁)) :
    Concur ((x >>= f).run.run db) ((x >>= f').run.run db) := by
  rw [run_bind, run_bind]
  rcases hx : x.run.run db with ⟨e | a, db₁⟩
  · exact .refl _
  · exact h a db₁ hx

theorem concur_plan (hdb : db.Registered) (hjoin : q.join = some j) (hne : q.table ≠ j.table)
    (hqualified : ∃ own, QualifiedBy (Plan.Side.written j own) q.table ∨
      QualifiedBy (Plan.Side.written j own) j.table) :
    Concur ((plan q).run.run db) ((plan q.swap).run.run db) := by
  obtain ⟨own, hqualified⟩ := hqualified
  have hnamed := Plan.names_of_qualified hne hqualified
  have hswap : q.swap.join = some j.swap := by rw [Query.swap, hjoin, Option.map_some]
  rw [plan_eq, plan_eq, hjoin, hswap]
  simp only [joinTable, bind_assoc, pure_bind]
  refine concur_bind fun left db₁ hleft => concur_bind fun right db₂ hright => Concur.bind ?_ _
  rw [run_lift, run_lift]
  obtain ⟨⟨hleft, -⟩, hdb₁⟩ := (safe_planTable q.table).of_ok hdb hleft
  obtain ⟨⟨hright, -⟩, -⟩ := (safe_planTable j.table).of_ok hdb₁ hright
  rw [← hleft, ← hright] at hnamed
  show Concur (Plan.choose q left (some (j, right)), db₂)
    (Plan.choose q left (some (j.swap, right)), db₂)
  by_cases hone : Plan.OneSided left.name right.name j
  · rw [Plan.choose_of_oneSided hone, Plan.choose_of_oneSided hone.swap]
    exact ⟨rfl, .inr ⟨_, _, rfl, rfl, rfl⟩⟩
  · rw [Plan.choose_congr (Plan.operands_swap ⟨own, hnamed⟩ hone)]
    exact .refl _

/-- With two different tables, and an operand that is qualified by one of them, the order of the
operands does not matter: the same columns and rows are selected, or both queries fail with
errors of one class. It does not matter either for the files, the tables in memory and the trace,
nor for when the query is stopped. -/
theorem run_swap (hdb : db.Registered) (hjoin : q.join = some j) (hne : q.table ≠ j.table)
    (hqualified : ∃ own, QualifiedBy (Plan.Side.written j own) q.table ∨
      QualifiedBy (Plan.Side.written j own) j.table) (signal : Signal) :
    Concur ((run (.select q) signal).run.run db) ((run (.select q.swap) signal).run.run db) := by
  refine concur_bind fun _ db₁ hpoll => Concur.bind ?_ _
  exact concur_plan ((safe_poll signal).of_ok hdb hpoll).2 hjoin hne hqualified

theorem run_swap_author :
    authorQuery.swap.join = some ⟨"members", "author", "members.id"⟩ ∧
    ((run (.select authorQuery.swap) .never).run.run forum).1 =
      .ok (.selected ["mail", "posts.id"] [[.text "c", .int 8]]) := by
  have hfirst : ((run (.select authorQuery) .never).run.run forum).1 =
      .ok (.selected ["mail", "posts.id"] [[.text "c", .int 8]]) := by rfl
  have hqualified : QualifiedBy "members.id" "members" := ⟨"id", by decide⟩
  refine ⟨rfl, ?_⟩
  obtain ⟨-, ⟨o, ho, ho'⟩ | ⟨e, e', he, -⟩⟩ :=
    run_swap (q := authorQuery) registered_forum rfl (by decide) ⟨.left, .inr hqualified⟩ .never
  · rw [ho', ← ho, hfirst]
  · rw [hfirst] at he
    cases he

end Database
end RelStore
