import Mathlib.Data.List.Forall2
import RelStore.Table

/-! Lists of indexes: what it means that an index answers for a column of the rows, and
what the changes of a table do to each index in turn. -/
namespace RelStore

/-- An index holds the value of each row at a position with the key of that row, and
nothing else. -/
def Index.Answers (ix : Index) (rows : ValueMap Row) (i : Nat) : Prop :=
  ∀ v key, ix.key? v = some key ↔ ∃ row, rows.get? key = some row ∧ row[i]? = some v

namespace Index
variable {ix : Index} {rows : ValueMap Row} {i : Nat} {key v : Value} {row : Row}

theorem contains_eq_false_iff : ix.contains v = false ↔ ix.key? v = none := by
  simp [contains, key?, ValueMap.contains]

theorem answers_empty (column : String) (i : Nat) : (empty column).Answers .empty i := by
  intro v key
  simp

/-- A row under a new key whose value is new enters its value. -/
theorem Answers.set (h : ix.Answers rows i) (hk : rows.get? key = none)
    (hv : row[i]? = some v) (hn : ix.key? v = none) :
    (ix.set v key).2.Answers (rows.insert key row) i := by
  intro w k
  have hw := h w k
  simp only [key?_set, ValueMap.get?_insert]
  by_cases hvw : v = w <;> by_cases hkk : key = k <;> simp_all

theorem Answers.remove (h : ix.Answers rows i) (hr : rows.get? key = some row)
    (hv : row[i]? = some v) : (ix.remove v).2.Answers (rows.erase key) i := by
  intro w k
  have hw := h w k
  have hvk := (h v key).2 ⟨row, hr, hv⟩
  simp only [key?_remove, ValueMap.get?_erase]
  by_cases hvw : v = w <;> by_cases hkk : key = k <;> simp_all

theorem Answers.keep {new : Row} (h : ix.Answers rows i) (hr : rows.get? key = some row)
    (hv : new[i]? = row[i]?) : ix.Answers (rows.insert key new) i := by
  intro w k
  have hw := h w k
  simp only [ValueMap.get?_insert]
  by_cases hkk : key = k <;> simp_all

/-- A row that changes its value to a free one swaps the two. -/
theorem Answers.swap {new : Row} {w : Value} (h : ix.Answers rows i)
    (hr : rows.get? key = some row) (hv : new[i]? = some v) (hw : row[i]? = some w)
    (hne : v ≠ w) (hn : ix.key? v = none ∨ ix.key? v = some key) :
    ((ix.remove w).2.set v key).2.Answers (rows.insert key new) i := by
  have hfree : ix.key? v = none := by
    rcases hn with hn | hn
    · exact hn
    · obtain ⟨row', hr', hv'⟩ := (h v key).1 hn
      simp_all
  intro u k
  have hu := h u k
  have hwk := (h w key).2 ⟨row, hr, hw⟩
  simp only [key?_set, key?_remove, ValueMap.get?_insert]
  by_cases hvu : v = u <;> by_cases hwu : w = u <;> by_cases hkk : key = k <;> simp_all

end Index

namespace Table

/-- Each index by the same rule, from its position. -/
def turn (f : Nat → Index → Except Error Index) :
    List (Nat × Index) → Except Error (List (Nat × Index))
  | [] => .ok []
  | (i, ix) :: rest => do
    let ix ← f i ix
    let rest ← turn f rest
    pure ((i, ix) :: rest)

theorem turn_eq_ok_iff {f : Nat → Index → Except Error Index} {l l' : List (Nat × Index)} :
    turn f l = .ok l' ↔
      List.Forall₂ (fun e e' => e'.1 = e.1 ∧ f e.1 e.2 = .ok e'.2) l l' := by
  induction l generalizing l' with
  | nil => simp [turn, eq_comm]
  | cons e rest ih =>
    obtain ⟨i, ix⟩ := e
    simp only [turn, bind_eq_ok_iff, List.forall₂_cons_left_iff, ih]
    constructor
    · rintro ⟨ix', hf, rest', hr, h⟩
      cases h
      exact ⟨(i, ix'), rest', ⟨rfl, hf⟩, hr, rfl⟩
    · rintro ⟨⟨j, ix'⟩, rest', ⟨rfl, hf⟩, hr, rfl⟩
      exact ⟨ix', hf, rest', hr, rfl⟩

theorem turn_exists {f : Nat → Index → Except Error Index} {l : List (Nat × Index)}
    (h : ∀ e ∈ l, ∃ ix, f e.1 e.2 = .ok ix) : ∃ l', turn f l = .ok l' := by
  induction l with
  | nil => exact ⟨[], rfl⟩
  | cons e rest ih =>
    obtain ⟨i, ix⟩ := e
    obtain ⟨ix', hf⟩ := h (i, ix) List.mem_cons_self
    obtain ⟨rest', hr⟩ := ih fun e he => h e (List.mem_cons_of_mem _ he)
    exact ⟨(i, ix') :: rest', by simp only [turn, bind_eq_ok_iff]; exact ⟨ix', hf, rest', hr, rfl⟩⟩

/-- Where an index came from. -/
theorem exists_of_mem_turn {f : Nat → Index → Except Error Index} {l l' : List (Nat × Index)}
    (h : turn f l = .ok l') {e' : Nat × Index} (he : e' ∈ l') :
    ∃ ix, (e'.1, ix) ∈ l ∧ f e'.1 ix = .ok e'.2 := by
  rw [turn_eq_ok_iff] at h
  induction h with
  | nil => simp at he
  | @cons e d rest rest' hd _ ih =>
    rcases List.mem_cons.1 he with rfl | he
    · exact ⟨e.2, by simp [hd.1], by rw [hd.1]; exact hd.2⟩
    · obtain ⟨ix, hm, hf⟩ := ih he
      exact ⟨ix, List.mem_cons_of_mem _ hm, hf⟩

def places (l : List (Nat × Index)) : List (Nat × String) := l.map fun e => (e.1, e.2.column)

theorem places_turn {f : Nat → Index → Except Error Index} {l l' : List (Nat × Index)}
    (hc : ∀ i ix ix', f i ix = .ok ix' → ix'.column = ix.column) (h : turn f l = .ok l') :
    places l' = places l := by
  rw [turn_eq_ok_iff] at h
  induction h with
  | nil => rfl
  | cons hd _ ih =>
    simp only [places, List.map_cons] at ih ⊢
    rw [ih, hd.1, hc _ _ _ hd.2]

def entering (row : Row) (key : Value) (i : Nat) (ix : Index) : Except Error Index := do
  let v ← Row.cell row i
  pure (ix.set v key).2

def leaving (row : Row) (i : Nat) (ix : Index) : Except Error Index := do
  let v ← Row.cell row i
  pure (ix.remove v).2

/-- How an index takes a row in the place of another one. -/
def replacing (old new : Row) (key : Value) (keyPosition i : Nat) (ix : Index) :
    Except Error Index :=
  if i = keyPosition then .ok ix
  else do
    let v ← Row.cell new i
    let w ← Row.cell old i
    pure (if v = w then ix else ((ix.remove w).2.set v key).2)

theorem turn_entering_exists {row : Row} {l : List (Nat × Index)} (key : Value)
    (h : ∀ e ∈ l, ∃ v, row[e.1]? = some v) : ∃ l', turn (entering row key) l = .ok l' := by
  refine turn_exists fun e he => ?_
  obtain ⟨v, hv⟩ := h e he
  rw [entering, Row.cell_eq_ok_iff.2 hv]
  exact ⟨_, rfl⟩

theorem turn_leaving_exists {row : Row} {l : List (Nat × Index)}
    (h : ∀ e ∈ l, ∃ v, row[e.1]? = some v) : ∃ l', turn (leaving row) l = .ok l' := by
  refine turn_exists fun e he => ?_
  obtain ⟨v, hv⟩ := h e he
  rw [leaving, Row.cell_eq_ok_iff.2 hv]
  exact ⟨_, rfl⟩

theorem turn_replacing_exists {old new : Row} {l : List (Nat × Index)} (key : Value)
    (keyPosition : Nat) (hold : ∀ e ∈ l, ∃ v, old[e.1]? = some v)
    (hnew : ∀ e ∈ l, ∃ v, new[e.1]? = some v) :
    ∃ l', turn (replacing old new key keyPosition) l = .ok l' := by
  refine turn_exists fun e he => ?_
  obtain ⟨v, hv⟩ := hnew e he
  obtain ⟨w, hw⟩ := hold e he
  unfold replacing
  split
  · exact ⟨e.2, rfl⟩
  · rw [Row.cell_eq_ok_iff.2 hv, Row.cell_eq_ok_iff.2 hw]
    exact ⟨_, rfl⟩

theorem enter_eq_turn (row : Row) (key : Value) (l : List (Nat × Index)) :
    enter row key l = turn (entering row key) l := by
  induction l with
  | nil => rfl
  | cons e rest ih => simp only [enter, turn, entering, ih, bind_assoc, pure_bind]

theorem leave_eq_turn (row : Row) (l : List (Nat × Index)) :
    leave row l = turn (leaving row) l := by
  induction l with
  | nil => rfl
  | cons e rest ih => simp only [leave, turn, leaving, ih, bind_assoc, pure_bind]

theorem reenter_eq_turn (old new : Row) (key : Value) (keyPosition : Nat)
    (l : List (Nat × Index)) :
    reenter old new key keyPosition l = turn (replacing old new key keyPosition) l := by
  induction l with
  | nil => rfl
  | cons e rest ih =>
    obtain ⟨i, ix⟩ := e
    simp only [reenter, turn, replacing, ih]
    split
    · rfl
    · simp only [bind_assoc, pure_bind]
      refine bind_congr fun v => bind_congr fun w => bind_congr fun rest' => ?_
      split <;> rfl

theorem entering_column {row : Row} {key : Value} {i : Nat} {ix ix' : Index}
    (h : entering row key i ix = .ok ix') : ix'.column = ix.column := by
  obtain ⟨v, -, h⟩ := bind_eq_ok_iff.1 h
  cases h
  rfl

theorem leaving_column {row : Row} {i : Nat} {ix ix' : Index}
    (h : leaving row i ix = .ok ix') : ix'.column = ix.column := by
  obtain ⟨v, -, h⟩ := bind_eq_ok_iff.1 h
  cases h
  rfl

theorem replacing_column {old new : Row} {key : Value} {keyPosition i : Nat} {ix ix' : Index}
    (h : replacing old new key keyPosition i ix = .ok ix') : ix'.column = ix.column := by
  unfold replacing at h
  split at h
  · cases h; rfl
  · obtain ⟨v, -, h⟩ := bind_eq_ok_iff.1 h
    obtain ⟨w, -, h⟩ := bind_eq_ok_iff.1 h
    cases h
    split <;> rfl

theorem checkInsert_eq_ok_iff {row : Row} {keyPosition : Nat} {l : List (Nat × Index)}
    {u : Unit} :
    checkInsert row keyPosition l = .ok u ↔ ∀ e ∈ l, e.1 ≠ keyPosition →
      ∃ v, row[e.1]? = some v ∧ e.2.key? v = none := by
  induction l with
  | nil => simp [checkInsert]
  | cons e rest ih =>
    obtain ⟨i, ix⟩ := e
    simp only [checkInsert, List.forall_mem_cons]
    split
    · rename_i hi
      simp [hi, ih]
    · rename_i hi
      simp only [hi, ih, bind_eq_ok_iff, Row.cell_eq_ok_iff, ensure_eq_ok_iff,
        Index.contains_eq_false_iff, ne_eq, not_false_eq_true, forall_const]
      constructor
      · rintro ⟨v, hv, -, hn, hr⟩
        exact ⟨⟨v, hv, hn⟩, hr⟩
      · rintro ⟨⟨v, hv, hn⟩, hr⟩
        exact ⟨v, hv, (), hn, hr⟩

theorem checkReplace_eq_ok_iff {old new : Row} {key : Value} {keyPosition : Nat}
    {l : List (Nat × Index)} {u : Unit} :
    checkReplace old new key keyPosition l = .ok u ↔ ∀ e ∈ l, e.1 ≠ keyPosition →
      ∃ v w, new[e.1]? = some v ∧ old[e.1]? = some w ∧
        (v = w ∨ e.2.key? v = none ∨ e.2.key? v = some key) := by
  induction l with
  | nil => simp [checkReplace]
  | cons e rest ih =>
    obtain ⟨i, ix⟩ := e
    simp only [checkReplace, List.forall_mem_cons]
    split
    · rename_i hi
      simp [hi, ih]
    · rename_i hi
      simp only [hi, ih, bind_eq_ok_iff, Row.cell_eq_ok_iff, ensure_eq_ok_iff, ne_eq,
        not_false_eq_true, forall_const]
      constructor
      · rintro ⟨v, hv, w, hw, -, he, hr⟩
        exact ⟨⟨v, w, hv, hw, he⟩, hr⟩
      · rintro ⟨⟨v, w, hv, hw, he⟩, hr⟩
        exact ⟨v, hv, w, hw, (), he, hr⟩

/-- A new table has an empty index at the position of each indexed column. -/
theorem mem_emptyIndexes {j : Nat} {cs : List Column} {e : Nat × Index} :
    e ∈ emptyIndexes j cs ↔
      ∃ i c, cs[i]? = some c ∧ c.isIndexed = true ∧ e = (j + i, .empty c.name) := by
  induction cs generalizing j with
  | nil => simp [emptyIndexes]
  | cons c cs ih =>
    have hshift : ∀ p : Nat → Column → Prop,
        (∃ i d, (c :: cs)[i]? = some d ∧ p i d) ↔
          p 0 c ∨ ∃ i d, cs[i]? = some d ∧ p (i + 1) d := by
      intro p
      constructor
      · rintro ⟨_ | i, d, hd, hp⟩
        · cases hd; exact .inl hp
        · exact .inr ⟨i, d, by simpa using hd, hp⟩
      · rintro (hp | ⟨i, d, hd, hp⟩)
        · exact ⟨0, c, rfl, hp⟩
        · exact ⟨i + 1, d, by simpa using hd, hp⟩
    rw [hshift, emptyIndexes]
    split
    · rename_i hc
      simp [ih, hc, Nat.add_comm, Nat.add_left_comm]
    · rename_i hc
      simp [ih, hc, Nat.add_comm, Nat.add_left_comm]

theorem lookup_emptyIndexes (j i : Nat) (cs : List Column) :
    (emptyIndexes j cs).lookup (j + i) =
      (cs[i]?.filter (·.isIndexed)).map fun c => Index.empty c.name := by
  induction cs generalizing j i with
  | nil => simp [emptyIndexes]
  | cons c cs ih =>
    cases i with
    | zero =>
      have hnone : (emptyIndexes (j + 1) cs).lookup j = none := by
        simp only [List.lookup_eq_none_iff, mem_emptyIndexes]
        rintro e ⟨i, d, -, -, rfl⟩
        simp; omega
      by_cases hc : c.isIndexed = true <;> simp [emptyIndexes, hc, hnone, Option.filter]
    | succ i =>
      have hi := ih (j + 1) i
      rw [show j + 1 + i = j + (i + 1) by omega] at hi
      have hne : (j + (i + 1) == j) = false := by simp
      by_cases hc : c.isIndexed = true <;> simp [emptyIndexes, hc, hi, List.lookup_cons, hne]

theorem lookup_places (l : List (Nat × Index)) (i : Nat) :
    (places l).lookup i = (l.lookup i).map (·.column) := by
  induction l with
  | nil => rfl
  | cons e rest ih =>
    obtain ⟨j, ix⟩ := e
    simp only [places] at ih
    cases h : i == j <;> simp [places, List.lookup_cons, h, ih]

end Table
end RelStore
