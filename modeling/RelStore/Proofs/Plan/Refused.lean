import RelStore.Proofs.Plan.Naive
import RelStore.Proofs.Plan.Operands

/-! The queries for which there is a plan. A query of one table always has one. A join has one if
its operands stand for a column each, and no column of the condition means several. -/
namespace RelStore
namespace Plan
variable {left right : Table} {j : Join} {q : Query}

theorem chooseRows_exists_iff (right : Option (Join × Table)) :
    (∃ r, choose q left right = .ok r) ↔ ∃ r, chooseRows q left right = .ok r := by
  constructor
  · rintro ⟨r, hr⟩
    obtain ⟨a, ha, -⟩ := bind_eq_ok_iff.1 hr
    exact ⟨a, ha⟩
  · rintro ⟨r, hr⟩
    exact ⟨_, by rw [choose, hr]; rfl⟩

theorem choose_exists (q : Query) (t : Table) : ∃ r, choose q t none = .ok r := by
  rw [chooseRows_exists_iff]
  obtain ⟨a, ha⟩ := chooseAccess_exists t q.condition
  exact ⟨_, by rw [chooseRows, ha]; rfl⟩

theorem joinPosition_exists_iff {t : Table} {column : String} :
    (∃ i, joinPosition t column = .ok i) ↔
      ∃! i, (Heading.ofSchema t.schema).Answers column i := by
  rw [← Heading.exists_resolve?_iff]
  unfold joinPosition
  cases Heading.resolve? (.ofSchema t.schema) column <;> simp

theorem leftOnly_exists_iff {joined : Heading} {n : Nat} {names : List String} :
    (∃ b, leftOnly joined n names = .ok b) ↔
      ∀ name ∈ names, ∀ i k, joined.Answers name i → joined.Answers name k → i = k := by
  simp only [← Heading.isAmbiguous_eq_false_iff]
  induction names with
  | nil => simp [leftOnly]
  | cons name rest ih =>
    rw [List.forall_mem_cons, ← ih, leftOnly]
    cases hname : Heading.isAmbiguous joined name with
    | true => simp
    | false =>
      rw [if_neg Bool.false_ne_true]
      cases leftOnly joined n rest with
      | error e => simp [bind, Except.bind]
      | ok b =>
        refine iff_of_true ?_ ⟨rfl, b, rfl⟩
        cases Heading.resolve? joined name <;> exact ⟨_, rfl⟩

theorem chooseJoin_exists_iff {c : Option Condition} {p : String × String}
    (hp : operands left.name right.name j = .ok p) : (∃ r, chooseJoin left right j c = .ok r) ↔
      (∃ i, joinPosition left p.1 = .ok i) ∧ (∃ k, joinPosition right p.2 = .ok k) ∧
        ∀ d, c = some d → ∃ b, leftOnly
          (Heading.ofSchema left.schema ++ Heading.ofSchema right.schema)
          (Heading.ofSchema left.schema).length d.columns = .ok b := by
  obtain ⟨leftColumn, rightColumn⟩ := p
  simp only [chooseJoin, hp, ok_bind]
  cases joinPosition left leftColumn with
  | error e => simp [bind, Except.bind]
  | ok i =>
    cases joinPosition right rightColumn with
    | error e => simp [bind, Except.bind]
    | ok k =>
      simp only [ok_bind, Except.ok.injEq, exists_eq', true_and]
      cases c with
      | none => exact iff_of_true ⟨_, rfl⟩ fun d hd => by cases hd
      | some d =>
        simp only [Option.some.injEq, forall_eq']
        cases leftOnly _ _ d.columns with
        | error e => simp [bind, Except.bind]
        | ok b =>
          refine iff_of_true ?_ ⟨b, rfl⟩
          obtain ⟨a, ha⟩ := chooseAccess_exists left (some d)
          cases b with
          | true => exact ⟨_, by rw [ok_bind, if_pos rfl, ha]; rfl⟩
          | false => exact ⟨_, rfl⟩

/-- A join has a plan unless its operands are on one side, one of them does not stand for one
column of its table, or a name of the condition means several columns. -/
theorem choose_join_exists_iff : (∃ r, choose q left (some (j, right)) = .ok r) ↔
    ¬ OneSided left.name right.name j ∧
    (∀ own s, GoesTo left.name right.name j own s →
      ∃! i, (Heading.ofSchema (s.of (left, right)).schema).Answers (own.written j) i) ∧
    ∀ c, q.condition = some c → ∀ name ∈ c.columns, ∀ i k,
      (Heading.ofSchema left.schema ++ Heading.ofSchema right.schema).Answers name i →
      (Heading.ofSchema left.schema ++ Heading.ofSchema right.schema).Answers name k → i = k := by
  rw [chooseRows_exists_iff, chooseRows]
  by_cases hone : OneSided left.name right.name j
  · rw [chooseJoin, operands_of_oneSided hone]
    refine iff_of_false ?_ fun h => h.1 hone
    rintro ⟨r, hr⟩
    cases hr
  · obtain ⟨p, hp, hof⟩ := operands_exists hone
    -- an operand that goes to a side is what the side has
    have hsides : (∀ own s, GoesTo left.name right.name j own s →
          ∃! i, (Heading.ofSchema (s.of (left, right)).schema).Answers (own.written j) i) ↔
        (∃ i, joinPosition left p.1 = .ok i) ∧ ∃ k, joinPosition right p.2 = .ok k := by
      rw [joinPosition_exists_iff, joinPosition_exists_iff]
      constructor
      · intro h
        have hside : ∀ s : Side,
            ∃! i, (Heading.ofSchema (s.of (left, right)).schema).Answers (s.of p) i := by
          intro s
          obtain ⟨own, hown, hwritten⟩ := (hof s (s.of p)).1 rfl
          exact hwritten ▸ h own s hown
        exact ⟨hside .left, hside .right⟩
      · rintro ⟨hl, hr⟩ own s hown
        rw [← (hof s (own.written j)).2 ⟨own, hown, rfl⟩]
        cases s with
        | left => exact hl
        | right => exact hr
    rw [chooseJoin_exists_iff hp, hsides]
    simp only [leftOnly_exists_iff, hone, not_false_eq_true, true_and, and_assoc]

theorem errorClass_of_leftOnly {joined : Heading} {n : Nat} {names : List String} {e : Error}
    (h : leftOnly joined n names = .error e) : e.errorClass = .plan := by
  induction names with
  | nil => cases h
  | cons name rest ih =>
    rw [leftOnly] at h
    split at h
    · cases h
      rfl
    · rcases bind_eq_error_iff.1 h with h | ⟨others, -, h⟩
      · exact ih h
      · split at h <;> cases h

theorem errorClass_of_joinPosition {t : Table} {column : String} {e : Error}
    (h : joinPosition t column = .error e) : e.errorClass = .plan := by
  unfold joinPosition at h
  split at h <;> cases h
  rfl

theorem errorClass_of_operands {l r : String} {e : Error} (h : operands l r j = .error e) :
    e.errorClass = .plan := by
  unfold operands at h
  split at h <;> cases h <;> rfl

theorem chooseAccess_ne_error (t : Table) (c : Option Condition) (e : Error) :
    chooseAccess t c ≠ .error e := by
  intro hc
  obtain ⟨a, ha⟩ := chooseAccess_exists t c
  rw [ha] at hc
  cases hc

theorem errorClass_of_chooseJoin {c : Option Condition} {e : Error}
    (h : chooseJoin left right j c = .error e) : e.errorClass = .plan := by
  rcases bind_eq_error_iff.1 h with h | ⟨⟨leftColumn, rightColumn⟩, -, h⟩
  · exact errorClass_of_operands h
  rcases bind_eq_error_iff.1 h with h | ⟨i, -, h⟩
  · exact errorClass_of_joinPosition h
  rcases bind_eq_error_iff.1 h with h | ⟨k, -, h⟩
  · exact errorClass_of_joinPosition h
  cases c with
  | none => cases h
  | some d =>
    rcases bind_eq_error_iff.1 h with h | ⟨only, -, h⟩
    · exact errorClass_of_leftOnly h
    cases only with
    | true =>
      rcases bind_eq_error_iff.1 h with h | ⟨access, -, h⟩
      · exact absurd h (chooseAccess_ne_error left (some d) e)
      · cases h
    | false => cases h

theorem errorClass_of_choose {right : Option (Join × Table)} {e : Error}
    (h : choose q left right = .error e) : e.errorClass = .plan := by
  rcases bind_eq_error_iff.1 h with h | ⟨⟨rows, access⟩, -, h⟩
  · cases right with
    | none =>
      rcases bind_eq_error_iff.1 h with h | ⟨access, -, h⟩
      · exact absurd h (chooseAccess_ne_error left q.condition e)
      · cases h
    | some jr => exact errorClass_of_chooseJoin h
  · cases h

/-- The scans by an index that a plan has. -/
def indexScans : Plan → List (Table × String × Value)
  | scan _ _ => []
  | indexScan t column value => [(t, column, value)]
  | join l r _ _ => l.indexScans ++ r.indexScans
  | filter _ p | limit _ p | marked _ p => p.indexScans

/-- Where a plan makes its rows, each of its scans by an index finds a row or none. -/
theorem find_of_rows {p : Plan} {rows : List Row} (h : p.rows = .ok rows) :
    ∀ e ∈ p.indexScans, ∃ found, e.1.find e.2.1 e.2.2 = .ok found := by
  induction p generalizing rows with
  | scan t test => simp [indexScans]
  | indexScan t column value =>
    obtain ⟨found, hfound, -⟩ := bind_eq_ok_iff.1 h
    simp [indexScans, hfound]
  | join l r i k ihl ihr =>
    obtain ⟨left, hl, h⟩ := bind_eq_ok_iff.1 h
    obtain ⟨right, hr, -⟩ := bind_eq_ok_iff.1 h
    exact List.forall_mem_append.2 ⟨ihl hl, ihr hr⟩
  | filter c p ih =>
    obtain ⟨made, hp, -⟩ := bind_eq_ok_iff.1 h
    exact ih hp
  | limit n p ih =>
    obtain ⟨made, hp, -⟩ := bind_eq_ok_iff.1 h
    exact ih hp
  | marked label p ih => exact ih h

end Plan
end RelStore
