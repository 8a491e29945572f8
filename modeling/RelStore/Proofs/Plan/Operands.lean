import RelStore.Plan.Choice

/-! The operands of a join. A qualified one goes to the table that it names, and the order in
which they are written matters only if neither is qualified. -/
namespace RelStore

/-- A name is written as a column of a table. -/
def QualifiedBy (name table : String) : Prop := ∃ column, splitName? name = some (table, column)

theorem QualifiedBy.unique {name t u : String} (ht : QualifiedBy name t) (hu : QualifiedBy name u) :
    t = u := by
  obtain ⟨c, hc⟩ := ht
  obtain ⟨d, hd⟩ := hu
  rw [hc] at hd
  cases hd
  rfl

def Join.swap (j : Join) : Join := { j with left := j.right, right := j.left }

namespace Plan

def Side.opposite : Side → Side
  | .left => .right
  | .right => .left

@[simp] theorem Side.opposite_opposite (s : Side) : s.opposite.opposite = s := by
  cases s <;> rfl

/-- The operand that is written on a side of a join. -/
def Side.written (j : Join) : Side → String
  | .left => j.left
  | .right => j.right

def Side.of {α : Type} (p : α × α) : Side → α
  | .left => p.1
  | .right => p.2

def Names (left right name : String) : Side → Prop
  | .left => QualifiedBy name left ∧ ¬ QualifiedBy name right
  | .right => QualifiedBy name right ∧ ¬ QualifiedBy name left

/-- The side to which an operand belongs that is written on its own side. It is the side that it
names. If it names none, it is opposite to the side that the other operand names, or its own if
that names none either. -/
inductive GoesTo (left right : String) (j : Join) (own : Side) : Side → Prop
  | named {s : Side} (h : Names left right (own.written j) s) : GoesTo left right j own s
  | opposite {s : Side} (h : ∀ s', ¬ Names left right (own.written j) s')
      (ho : Names left right (own.opposite.written j) s) : GoesTo left right j own s.opposite
  | unnamed (h : ∀ s', ¬ Names left right (own.written j) s')
      (ho : ∀ s', ¬ Names left right (own.opposite.written j) s') : GoesTo left right j own own

/-- Both operands name the same side. -/
def OneSided (left right : String) (j : Join) : Prop :=
  ∃ s, Names left right j.left s ∧ Names left right j.right s

variable {left right name : String} {j : Join} {s : Side}

theorem sideOf?_eq_some_iff : sideOf? left right name = some s ↔ Names left right name s := by
  rw [sideOf?]
  cases hn : splitName? name with
  | none =>
    have hno : ∀ table, ¬ QualifiedBy name table := by
      rintro table ⟨c, hc⟩
      rw [hn] at hc
      cases hc
    cases s <;> simp [Names, hno]
  | some p =>
    obtain ⟨table, column⟩ := p
    have hqualified : ∀ u, QualifiedBy name u ↔ (table == u) = true := by
      intro u
      rw [beq_iff_eq]
      exact ⟨fun hu => QualifiedBy.unique ⟨column, hn⟩ hu, fun hu => ⟨column, hu ▸ hn⟩⟩
    cases hl : table == left <;> cases hr : table == right <;> cases s <;>
      simp [Names, hqualified, hl, hr]

theorem sideOf?_eq_none_iff :
    sideOf? left right name = none ↔ ∀ s, ¬ Names left right name s := by
  rw [Option.eq_none_iff_forall_ne_some]
  simp only [ne_eq, sideOf?_eq_some_iff]

theorem names_of_qualified (hne : left ≠ right)
    (h : QualifiedBy name left ∨ QualifiedBy name right) : ∃ s, Names left right name s := by
  rcases h with h | h
  · exact ⟨.left, h, fun hr => hne (h.unique hr)⟩
  · exact ⟨.right, h, fun hl => hne (hl.unique h)⟩

/-- Where an operand goes that is written on its own side, by what both of them name. -/
def Side.aim (own : Side) : Option Side → Option Side → Side
  | some a, _ => a
  | none, some b => b.opposite
  | none, none => own

theorem goesTo_iff {own : Side} : GoesTo left right j own s ↔
    s = own.aim (sideOf? left right (own.written j))
      (sideOf? left right (own.opposite.written j)) := by
  constructor
  · intro h
    cases h with
    | named h => rw [sideOf?_eq_some_iff.2 h, Side.aim]
    | opposite h ho => rw [sideOf?_eq_none_iff.2 h, sideOf?_eq_some_iff.2 ho, Side.aim]
    | unnamed h ho => rw [sideOf?_eq_none_iff.2 h, sideOf?_eq_none_iff.2 ho, Side.aim]
  · rintro rfl
    cases hown : sideOf? left right (own.written j) with
    | some a => exact .named (sideOf?_eq_some_iff.1 hown)
    | none =>
      have hnone := sideOf?_eq_none_iff.1 hown
      cases hother : sideOf? left right (own.opposite.written j) with
      | some b => exact .opposite hnone (sideOf?_eq_some_iff.1 hother)
      | none => exact .unnamed hnone (sideOf?_eq_none_iff.1 hother)

theorem Side.aim_opposite (own : Side) {x y : Option Side} (h : ∀ s, x = some s → y ≠ some s) :
    own.opposite.aim y x = (own.aim x y).opposite := by
  cases x with
  | none => cases y <;> simp [aim]
  | some a =>
    cases y with
    | none => rfl
    | some b =>
      have hab : b ≠ a := fun hba => h a rfl (congrArg some hba)
      cases a <;> cases b <;> first | rfl | exact absurd rfl hab

/-- Where an operand is written matters only if neither of the two names a side. -/
theorem Side.aim_eq {x y : Option Side} (h : ∃ s, x = some s ∨ y = some s) (own other : Side) :
    own.aim x y = other.aim x y := by
  cases x with
  | some a => rfl
  | none =>
    cases y with
    | some b => rfl
    | none => simp at h

def Side.arranged (j : Join) : Side → String × String
  | .left => (j.left, j.right)
  | .right => (j.right, j.left)

theorem oneSided_iff : OneSided left right j ↔
    ∃ s, sideOf? left right j.left = some s ∧ sideOf? left right j.right = some s := by
  simp only [OneSided, sideOf?_eq_some_iff]

theorem aim_right (h : ¬ OneSided left right j) :
    Side.right.aim (sideOf? left right j.right) (sideOf? left right j.left) =
      (Side.left.aim (sideOf? left right j.left) (sideOf? left right j.right)).opposite :=
  Side.aim_opposite .left fun s hl hr => h (oneSided_iff.2 ⟨s, hl, hr⟩)

theorem operands_of_oneSided (h : OneSided left right j) :
    operands left right j = .error (.oneSidedJoin j.left j.right) := by
  obtain ⟨s, hl, hr⟩ := oneSided_iff.1 h
  rw [operands, hl, hr]
  cases s <;> rfl

theorem operands_eq (h : ¬ OneSided left right j) : operands left right j =
    .ok ((Side.left.aim (sideOf? left right j.left) (sideOf? left right j.right)).arranged j) := by
  rw [oneSided_iff] at h
  rw [operands]
  cases hl : sideOf? left right j.left with
  | none => rcases sideOf? left right j.right with _ | _ | _ <;> rfl
  | some a =>
    cases hr : sideOf? left right j.right with
    | none => cases a <;> rfl
    | some b =>
      have hab : a ≠ b := fun hab => h ⟨a, hl, hab ▸ hr⟩
      cases a <;> cases b <;> first | rfl | exact absurd rfl hab

theorem operands_exists (h : ¬ OneSided left right j) : ∃ p, operands left right j = .ok p ∧
    ∀ s name, s.of p = name ↔ ∃ own, GoesTo left right j own s ∧ own.written j = name := by
  refine ⟨_, operands_eq h, fun s name => ?_⟩
  have hown : (∃ own, GoesTo left right j own s ∧ own.written j = name) ↔
      (GoesTo left right j .left s ∧ j.left = name) ∨
        (GoesTo left right j .right s ∧ j.right = name) := by
    constructor
    · rintro ⟨_ | _, hs, hname⟩
      · exact .inl ⟨hs, hname⟩
      · exact .inr ⟨hs, hname⟩
    · rintro (hs | hs)
      · exact ⟨.left, hs⟩
      · exact ⟨.right, hs⟩
  rw [hown, goesTo_iff, goesTo_iff]
  show _ ↔ (s = Side.left.aim (sideOf? left right j.left) (sideOf? left right j.right) ∧ _) ∨
    (s = Side.right.aim (sideOf? left right j.right) (sideOf? left right j.left) ∧ _)
  rw [aim_right h]
  cases Side.left.aim (sideOf? left right j.left) (sideOf? left right j.right) <;> cases s <;>
    simp [Side.of, Side.arranged, Side.opposite]

theorem OneSided.swap (h : OneSided left right j) : OneSided left right j.swap := by
  obtain ⟨s, hl, hr⟩ := h
  exact ⟨s, hr, hl⟩

/-- With an operand that names a side, the order in which they are written does not matter. -/
theorem operands_swap (h : ∃ own s, Names left right (Side.written j own) s)
    (hone : ¬ OneSided left right j) :
    operands left right j.swap = operands left right j := by
  have hswap : ¬ OneSided left right j.swap := fun h => hone h.swap
  have hnamed : ∃ s, sideOf? left right j.right = some s ∨ sideOf? left right j.left = some s := by
    obtain ⟨_ | _, s, hs⟩ := h
    · exact ⟨s, .inr (sideOf?_eq_some_iff.2 hs)⟩
    · exact ⟨s, .inl (sideOf?_eq_some_iff.2 hs)⟩
  rw [operands_eq hone, operands_eq hswap]
  simp only [Join.swap]
  rw [Side.aim_eq hnamed .left .right, aim_right hone]
  cases Side.left.aim (sideOf? left right j.left) (sideOf? left right j.right) <;> rfl

end Plan
end RelStore
