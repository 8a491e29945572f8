import Mathlib.Logic.ExistsUnique
import RelStore.Heading
import RelStore.Plan.Choice

/-! What names mean in the columns of two tables side by side, and conditions that speak of
the columns of the first alone. -/
namespace RelStore
namespace Heading
variable {h g : Heading} {name : String}

theorem mem_positionsFrom {i j : Nat} :
    j ∈ positionsFrom i name h ↔ ∃ k a, h[k]? = some a ∧ a.answersTo name = true ∧ j = i + k := by
  induction h generalizing i with
  | nil => simp [positionsFrom]
  | cons a h ih =>
    have hrest : j ∈ positionsFrom (i + 1) name h ↔
        ∃ k b, (a :: h)[k + 1]? = some b ∧ b.answersTo name = true ∧ j = i + (k + 1) := by
      rw [ih]
      simp only [List.getElem?_cons_succ, Nat.add_assoc, Nat.add_comm 1]
    have hsplit : (∃ k b, (a :: h)[k]? = some b ∧ b.answersTo name = true ∧ j = i + k) ↔
        (a.answersTo name = true ∧ j = i) ∨ j ∈ positionsFrom (i + 1) name h := by
      rw [hrest]
      constructor
      · intro hk
        obtain ⟨k, b, hb, ha, rfl⟩ := hk
        cases k with
        | zero =>
          cases hb
          exact .inl ⟨ha, rfl⟩
        | succ k => exact .inr ⟨k, b, hb, ha, rfl⟩
      · intro hk
        rcases hk with ⟨ha, rfl⟩ | ⟨k, b, hb, ha, rfl⟩
        · exact ⟨0, a, rfl, ha, rfl⟩
        · exact ⟨k + 1, b, hb, ha, rfl⟩
    rw [hsplit, positionsFrom]
    split
    · rename_i ha
      simp [ha]
    · rename_i ha
      simp [ha]

theorem positionsFrom_append (i : Nat) (name : String) (h g : Heading) :
    positionsFrom i name (h ++ g) =
      positionsFrom i name h ++ positionsFrom (i + h.length) name g := by
  induction h generalizing i with
  | nil => simp [positionsFrom]
  | cons a h ih =>
    have hi : i + 1 + h.length = i + (h.length + 1) := by omega
    simp only [List.cons_append, positionsFrom, ih, List.length_cons, hi]
    split <;> rfl

theorem resolve?_eq_some_iff {i : Nat} : resolve? h name = some i ↔ positions h name = [i] := by
  unfold resolve?
  rcases positions h name with _ | ⟨j, _ | ⟨k, rest⟩⟩ <;> simp

theorem pairwise_positionsFrom (i : Nat) (name : String) (h : Heading) :
    (positionsFrom i name h).Pairwise (· < ·) := by
  induction h generalizing i with
  | nil => exact .nil
  | cons a h ih =>
    rw [positionsFrom]
    split
    · refine .cons (fun j hj => ?_) (ih (i + 1))
      obtain ⟨k, b, -, -, rfl⟩ := mem_positionsFrom.1 hj
      omega
    · exact ih (i + 1)

/-- A name means the column at a position. -/
def Answers (h : Heading) (name : String) (i : Nat) : Prop :=
  ∃ a, h[i]? = some a ∧ a.answersTo name = true

theorem mem_positions_iff {i : Nat} : i ∈ positions h name ↔ h.Answers name i := by
  rw [positions, mem_positionsFrom]
  constructor
  · rintro ⟨k, a, ha, hanswers, rfl⟩
    rw [Nat.zero_add]
    exact ⟨a, ha, hanswers⟩
  · rintro ⟨a, ha, hanswers⟩
    exact ⟨i, a, ha, hanswers, (Nat.zero_add i).symm⟩

/-- A name stands for a column if this is the only one that answers to it. -/
theorem resolve?_eq_some_iff_unique {i : Nat} :
    resolve? h name = some i ↔ (∃ a, h[i]? = some a ∧ a.answersTo name = true) ∧
      ∀ j a, h[j]? = some a → a.answersTo name = true → j = i := by
  have hpairwise : (positions h name).Pairwise (· < ·) := pairwise_positionsFrom 0 name h
  have hi : (∃ a, h[i]? = some a ∧ a.answersTo name = true) ↔ i ∈ positions h name :=
    mem_positions_iff.symm
  rw [resolve?_eq_some_iff, hi]
  constructor
  · intro hi
    refine ⟨hi ▸ List.mem_singleton_self i, fun j a ha hanswers => ?_⟩
    exact List.mem_singleton.1 (hi ▸ mem_positions_iff.2 ⟨a, ha, hanswers⟩)
  · rintro ⟨hi, hunique⟩
    have hall : ∀ j ∈ positions h name, j = i := by
      intro j hj
      obtain ⟨a, ha, hanswers⟩ := mem_positions_iff.1 hj
      exact hunique j a ha hanswers
    cases hp : positions h name with
    | nil =>
      rw [hp] at hi
      cases hi
    | cons j rest =>
      rw [hp] at hpairwise hall
      cases rest with
      | nil => rw [hall j List.mem_cons_self]
      | cons k rest =>
        have hlt := List.rel_of_pairwise_cons hpairwise List.mem_cons_self
        have hj := hall j List.mem_cons_self
        have hk := hall k (List.mem_cons_of_mem j List.mem_cons_self)
        omega

theorem exists_resolve?_iff : (∃ i, resolve? h name = some i) ↔ ∃! i, h.Answers name i := by
  refine exists_congr fun i => resolve?_eq_some_iff_unique.trans (and_congr_right fun _ => ?_)
  constructor
  · rintro hunique j ⟨a, ha, hanswers⟩
    exact hunique j a ha hanswers
  · intro hunique j a ha hanswers
    exact hunique j ⟨a, ha, hanswers⟩

theorem isAmbiguous_eq_false_iff :
    isAmbiguous h name = false ↔ ∀ i k, h.Answers name i → h.Answers name k → i = k := by
  have hpairwise : (positions h name).Pairwise (· < ·) := pairwise_positionsFrom 0 name h
  simp only [isAmbiguous, decide_eq_false_iff_not, ← mem_positions_iff]
  rcases hp : positions h name with _ | ⟨i, _ | ⟨k, rest⟩⟩
  · simp
  · simp
  · rw [hp] at hpairwise
    have hlt : i < k := List.rel_of_pairwise_cons hpairwise List.mem_cons_self
    refine iff_of_false (fun hn => hn (by simp)) fun hall => ?_
    have hik := hall i k List.mem_cons_self (List.mem_cons_of_mem i List.mem_cons_self)
    omega

theorem resolve?_lt {i : Nat} (hr : resolve? h name = some i) : i < h.length := by
  have hi : i ∈ positions h name := by simp [resolve?_eq_some_iff.1 hr]
  obtain ⟨k, a, ha, -, rfl⟩ := mem_positionsFrom.1 hi
  have hk := (List.getElem?_eq_some_iff.1 ha).1
  omega

theorem resolve?_of_append {i : Nat} (hr : resolve? (h ++ g) name = some i) (hi : i < h.length) :
    resolve? h name = some i := by
  rw [resolve?_eq_some_iff, positions, positionsFrom_append] at hr
  rw [resolve?_eq_some_iff, positions]
  cases hp : positionsFrom 0 name h with
  | nil =>
    -- otherwise its position would lie among the columns of the second table
    rw [hp, List.nil_append] at hr
    have hm : i ∈ positionsFrom (0 + h.length) name g := by
      rw [hr]
      exact List.mem_singleton_self i
    obtain ⟨k, a, -, -, hk⟩ := mem_positionsFrom.1 hm
    omega
  | cons j rest =>
    rw [hp] at hr
    simp only [List.cons_append, List.cons.injEq, List.append_eq_nil_iff] at hr
    rw [hr.1, hr.2.1]

theorem length_ofSchema (s : Schema) : (ofSchema s).length = s.columns.length := by
  simp [ofSchema]

end Heading

namespace Plan

theorem resolve?_of_leftOnly {joined : Heading} {n : Nat} {names : List String}
    (h : leftOnly joined n names = .ok true) :
    ∀ name ∈ names, ∃ i, Heading.resolve? joined name = some i ∧ i < n := by
  induction names with
  | nil => simp
  | cons name rest ih =>
    rw [leftOnly] at h
    split at h
    · cases h
    · obtain ⟨others, ho, hname⟩ := bind_eq_ok_iff.1 h
      cases hi : Heading.resolve? joined name with
      | none => simp [hi, pure, Except.pure] at hname
      | some i =>
        simp only [hi, pure, Except.pure, Except.ok.injEq, Bool.and_eq_true,
          decide_eq_true_eq] at hname
        obtain ⟨hlt, rfl⟩ := hname
        intro m hm
        rcases List.mem_cons.1 hm with rfl | hm
        · exact ⟨i, hi, hlt⟩
        · exact ih ho m hm

end Plan

theorem Condition.equation?_eq_some_iff {c : Condition} {name : String} {value : Value} :
    c.equation? = some (name, value) ↔ c = .equals name value := by
  cases c <;> simp [equation?]

/-- A condition on columns of the first table is decided by the first row. -/
theorem Condition.holds_append {h g : Heading} {l r : Row} (hl : l.length = h.length) :
    ∀ {c : Condition},
      (∀ name ∈ c.columns, ∃ i, Heading.resolve? (h ++ g) name = some i ∧ i < h.length) →
        c.holds (h ++ g) (l ++ r) = c.holds h l
  | .equals column value, hc => by
    obtain ⟨i, hi, hlt⟩ := hc column (by simp [columns])
    have hrow : (l ++ r)[i]? = l[i]? := List.getElem?_append_left (hl ▸ hlt)
    simp only [holds, hi, Heading.resolve?_of_append hi hlt, hrow]
  | .and c d, hc => by
    have hleft := holds_append hl (c := c) (r := r) fun n hn => hc n (by simp [columns, hn])
    have hright := holds_append hl (c := d) (r := r) fun n hn => hc n (by simp [columns, hn])
    simp only [holds, hleft, hright]
  | .or c d, hc => by
    have hleft := holds_append hl (c := c) (r := r) fun n hn => hc n (by simp [columns, hn])
    have hright := holds_append hl (c := d) (r := r) fun n hn => hc n (by simp [columns, hn])
    simp only [holds, hleft, hright]

end RelStore
