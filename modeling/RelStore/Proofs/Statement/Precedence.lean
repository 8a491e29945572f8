import RelStore.Proofs.Statement.Lookahead
import RelStore.Statement.Precedence

/-! Reading by precedence groups a chain as its runs do: conditions are read alike, and are
stuck alike, in the one way and in the other. -/
namespace RelStore
namespace Statement

open Condition (Connective ofChain joinRun)

variable {ts rest : List Token} {n : Nat} {left run : Condition} {done : Option Condition}

theorem climbFrom_succ (n least : Nat) (left : Condition) (ts : List Token) :
    climbFrom (n + 1) least left ts = match connective? ts with
      | some (op, rest) =>
        if op.precedence < least then .ok (left, ts)
        else equation [] rest >>= fun e =>
          climbFrom n (op.precedence + 1) (.equals e.1.1 e.1.2) e.2 >>= fun r =>
            climbFrom n least (op.join left r.1) r.2
      | none => .ok (left, ts) := by
  rw [climbFrom]
  cases connective? ts <;> rfl

theorem climbFrom_of_none {least : Nat} (h : connective? ts = none) :
    climbFrom n least left ts = .ok (left, ts) := by
  cases n with
  | zero => rfl
  | succ n => rw [climbFrom_succ, h]

/-- Nothing binds closer than AND, so that one equation is all that is right of it. -/
theorem climbFrom_behind_and :
    climbFrom n (Connective.and.precedence + 1) left ts = .ok (left, ts) := by
  cases hop : connective? ts with
  | none => exact climbFrom_of_none hop
  | some y =>
    obtain ⟨op, rest⟩ := y
    cases n with
    | zero => rfl
    | succ n =>
      rw [climbFrom_succ, hop]
      cases op <;> rfl

theorem length_lt_of_equation {op : Connective} {e : (String × Value) × List Token}
    (hop : connective? ts = some (op, rest)) (he : equation [] rest = .ok e) :
    e.2.length < ts.length := by
  have hlt := (connective?_eq_some_iff.1 hop).length_eq
  have hle := (oneAhead_equation []).length_le he
  rw [List.length_singleton] at hlt
  omega

def grouped (done : Option Condition) (run : Condition) : Reader Condition := fun ts =>
  chainFrom ts.length ts >>= fun l => .ok (ofChain done run l.1, l.2)

theorem grouped_of_none (h : connective? ts = none) :
    grouped done run ts = .ok (joinRun done run, ts) := by
  cases ts with
  | nil => rfl
  | cons t ts =>
    rw [grouped, List.length_cons, chainFrom_succ, h]
    rfl

theorem grouped_of_some {op : Connective} (h : connective? ts = some (op, rest)) :
    grouped done run ts = equation [] rest >>= fun e => chainFrom e.2.length e.2 >>= fun l =>
      .ok (ofChain done run ((op, .equals e.1.1 e.1.2) :: l.1), l.2) := by
  cases ts with
  | nil => cases h
  | cons t ts =>
    rw [grouped, List.length_cons, chainFrom_succ, h]
    cases he : equation [] rest with
    | error s => simp only [he]; rfl
    | ok e =>
      have hlt := length_lt_of_equation h he
      rw [List.length_cons] at hlt
      have hfuel : chainFrom ts.length e.2 = chainFrom e.2.length e.2 :=
        chainFrom_fuel (by omega) (Nat.le_refl _)
      simp only [he, bind, Except.bind, hfuel]
      cases chainFrom e.2.length e.2 <;> rfl

theorem grouped_and (h : connective? ts = some (.and, rest)) :
    grouped done run ts = equation [] rest >>= fun e =>
      grouped done (.and run (.equals e.1.1 e.1.2)) e.2 := grouped_of_some h

theorem grouped_or (h : connective? ts = some (.or, rest)) :
    grouped done run ts = equation [] rest >>= fun e =>
      grouped (some (joinRun done run)) (.equals e.1.1 e.1.2) e.2 := grouped_of_some h

/-- Climbing from the lowest precedence reads what is left of the first run, and from that of AND
it reads what is left of a later one. -/
theorem climbFrom_eq_grouped (hn : ts.length ≤ n) :
    climbFrom n 0 left ts = grouped none left ts ∧
      ∀ m run, ts.length ≤ m →
        (climbFrom m 2 run ts >>= fun r => climbFrom n 0 (.or left r.1) r.2) =
          grouped (some left) run ts := by
  induction hlength : ts.length using Nat.strong_induction_on generalizing ts n left with
  | _ length ih =>
    subst hlength
    cases hop : connective? ts with
    | none =>
      rw [climbFrom_of_none hop, grouped_of_none hop]
      refine ⟨rfl, fun m run _ => ?_⟩
      rw [climbFrom_of_none hop, grouped_of_none hop]
      exact climbFrom_of_none hop
    | some y =>
      obtain ⟨op, rest⟩ := y
      have hsmall : ∀ {e n}, equation [] rest = .ok e → ts.length ≤ n + 1 → e.2.length ≤ n := by
        intro e n he hle
        have hlt := length_lt_of_equation hop he
        omega
      have hpos := (connective?_eq_some_iff.1 hop).length_eq
      rw [List.length_singleton] at hpos
      obtain ⟨n, rfl⟩ : ∃ n', n = n' + 1 := ⟨n - 1, by omega⟩
      cases op with
      | and =>
        constructor
        · rw [climbFrom_succ, hop, grouped_and hop]
          refine Stuck.bind_congr fun e he => ?_
          rw [climbFrom_behind_and]
          exact (ih _ (length_lt_of_equation hop he) (hsmall he hn) rfl).1
        · intro m run hm
          obtain ⟨m, rfl⟩ : ∃ m', m = m' + 1 := ⟨m - 1, by omega⟩
          rw [climbFrom_succ, hop, grouped_and hop]
          refine (bind_assoc (equation [] rest) _ _).trans (Stuck.bind_congr fun e he => ?_)
          have hlt := length_lt_of_equation hop he
          have hle : e.2.length ≤ n + 1 := by omega
          refine Eq.trans ?_ ((ih _ hlt hle rfl).2 m _ (hsmall he hm))
          rw [climbFrom_behind_and]
          rfl
      | or =>
        have hfirst : ∀ left, climbFrom (n + 1) 0 left ts = grouped none left ts := by
          intro left
          rw [climbFrom_succ, hop, grouped_or hop]
          refine Stuck.bind_congr fun e he => ?_
          exact (ih _ (length_lt_of_equation hop he) (hsmall he hn) rfl).2 n _ (hsmall he hn)
        refine ⟨hfirst left, fun m run hm => ?_⟩
        obtain ⟨m, rfl⟩ : ∃ m', m = m' + 1 := ⟨m - 1, by omega⟩
        -- the run ends here, and the next one is read from the lowest precedence
        rw [climbFrom_succ, hop, grouped_or hop]
        have hnext := hfirst (.or left run)
        rw [grouped_or hop] at hnext
        exact hnext

theorem expression_zero : expression 0 = condition := by
  funext ts
  refine Stuck.bind_congr fun e _ => ?_
  exact (climbFrom_eq_grouped (Nat.le_refl _)).1

end Statement
end RelStore
