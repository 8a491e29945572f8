import RelStore.Value

/-! Finite maps from values, kept as the list of their entries by rising key.
Each operation is described by what `get?` answers afterwards, and two maps
with equal answers are equal. -/
namespace RelStore

/-- The entries of a finite map, each key once, by rising key. -/
structure ValueMap (α : Type) where
  entries : List (Value × α)
  sorted : entries.Pairwise (fun a b => a.1 < b.1)

namespace ValueMap
variable {α : Type}

/-- Puts `x` under `k`, in place of an entry that has this key. -/
def put (k : Value) (x : α) : List (Value × α) → List (Value × α)
  | [] => [(k, x)]
  | (k', x') :: rest =>
    if k < k' then (k, x) :: (k', x') :: rest
    else if k = k' then (k, x) :: rest
    else (k', x') :: put k x rest

theorem mem_put {k : Value} {x : α} {e : Value × α} {l : List (Value × α)}
    (h : e ∈ put k x l) : e = (k, x) ∨ e ∈ l := by
  induction l with
  | nil => simpa [put] using h
  | cons hd tl ih =>
    obtain ⟨k', x'⟩ := hd
    simp only [put] at h
    split at h
    · simpa using h
    · split at h
      · rcases List.mem_cons.1 h with h | h
        · exact .inl h
        · exact .inr (List.mem_cons_of_mem _ h)
      · rcases List.mem_cons.1 h with h | h
        · exact .inr (h ▸ List.mem_cons_self)
        · exact (ih h).imp id (List.mem_cons_of_mem _)

theorem sorted_put (k : Value) (x : α) {l : List (Value × α)}
    (h : l.Pairwise (fun a b => a.1 < b.1)) :
    (put k x l).Pairwise (fun a b => a.1 < b.1) := by
  induction l with
  | nil => simp [put]
  | cons hd tl ih =>
    obtain ⟨k', x'⟩ := hd
    have hs := List.pairwise_cons.1 h
    simp only [put]
    split
    · rename_i hk
      refine List.pairwise_cons.2 ⟨fun e he => ?_, h⟩
      rcases List.mem_cons.1 he with rfl | he
      · exact hk
      · exact Value.lt_trans hk (hs.1 e he)
    · split
      · rename_i hk; subst hk
        exact List.pairwise_cons.2 ⟨hs.1, hs.2⟩
      · rename_i hk hne
        refine List.pairwise_cons.2 ⟨fun e he => ?_, ih hs.2⟩
        rcases mem_put he with rfl | he
        · by_cases h' : k' < k
          · exact h'
          · exact absurd (Value.eq_of_not_lt hk h') hne
        · exact hs.1 e he

def empty : ValueMap α := ⟨[], List.Pairwise.nil⟩

instance : Inhabited (ValueMap α) := ⟨empty⟩

def get? (m : ValueMap α) (k : Value) : Option α :=
  (m.entries.find? (fun e => e.1 = k)).map (·.2)

def contains (m : ValueMap α) (k : Value) : Bool := (m.get? k).isSome

def insert (m : ValueMap α) (k : Value) (x : α) : ValueMap α :=
  ⟨put k x m.entries, sorted_put k x m.sorted⟩

def erase (m : ValueMap α) (k : Value) : ValueMap α :=
  ⟨m.entries.filter (fun e => e.1 ≠ k), m.sorted.filter _⟩

def size (m : ValueMap α) : Nat := m.entries.length

def keys (m : ValueMap α) : List Value := m.entries.map (·.1)

def values (m : ValueMap α) : List α := m.entries.map (·.2)

@[simp] theorem get?_empty (k : Value) : (empty : ValueMap α).get? k = none := rfl

theorem find?_put (k k' : Value) (x : α) (l : List (Value × α)) :
    ((put k x l).find? (fun e => e.1 = k')).map (·.2) =
      if k = k' then some x else (l.find? (fun e => e.1 = k')).map (·.2) := by
  induction l with
  | nil => by_cases h : k = k' <;> simp [put, h]
  | cons hd tl ih =>
    obtain ⟨j, y⟩ := hd
    simp only [put]
    split
    · by_cases h : k = k' <;> simp [List.find?_cons, h]
    · split
      · rename_i hj; subst hj
        by_cases h : k = k' <;> simp [h]
      · rename_i hj
        by_cases h : j = k'
        · subst h; simp [hj]
        · simpa [List.find?_cons, h] using ih

theorem get?_insert (m : ValueMap α) (k k' : Value) (x : α) :
    (m.insert k x).get? k' = if k = k' then some x else m.get? k' :=
  find?_put k k' x m.entries

theorem get?_erase (m : ValueMap α) (k k' : Value) :
    (m.erase k).get? k' = if k = k' then none else m.get? k' := by
  simp only [get?, erase]
  induction m.entries with
  | nil => simp
  | cons hd tl ih =>
    obtain ⟨j, y⟩ := hd
    by_cases hj : j = k
    · subst hj
      by_cases h : j = k'
      · subst h; simp
      · simpa [h] using ih
    · by_cases h : j = k'
      · subst h; simp [hj, Ne.symm hj]
      · simpa [hj, h] using ih

theorem get?_eq_some_iff (m : ValueMap α) {k : Value} {x : α} :
    m.get? k = some x ↔ (k, x) ∈ m.entries := by
  obtain ⟨l, h⟩ := m
  simp only [get?]
  induction l with
  | nil => simp
  | cons hd tl ih =>
    obtain ⟨j, y⟩ := hd
    have hs := List.pairwise_cons.1 h
    by_cases hj : j = k
    · subst hj
      have hn : (j, x) ∉ tl := fun hm => Value.lt_irrefl j (hs.1 _ hm)
      simp [hn, eq_comm]
    · have := ih hs.2
      simp [hj, Ne.symm hj, this]

theorem nodup_entries (m : ValueMap α) : m.entries.Nodup :=
  m.sorted.imp fun {_ _} h he => Value.ne_of_lt h (congrArg Prod.fst he)

theorem eq_of_sorted_of_mem {l l' : List (Value × α)}
    (h : l.Pairwise (fun a b => a.1 < b.1)) (h' : l'.Pairwise (fun a b => a.1 < b.1))
    (hm : ∀ e, e ∈ l ↔ e ∈ l') : l = l' := by
  induction l generalizing l' with
  | nil =>
    cases l' with
    | nil => rfl
    | cons b t => exact absurd ((hm b).2 List.mem_cons_self) (by simp)
  | cons a s ih =>
    cases l' with
    | nil => exact absurd ((hm a).1 List.mem_cons_self) (by simp)
    | cons b t =>
      have hs := List.pairwise_cons.1 h
      have ht := List.pairwise_cons.1 h'
      have hab : a = b := by
        rcases List.mem_cons.1 ((hm a).1 List.mem_cons_self) with hab | hat
        · exact hab
        · rcases List.mem_cons.1 ((hm b).2 List.mem_cons_self) with hba | hbs
          · exact hba.symm
          · exact absurd (hs.1 b hbs) (Value.lt_asymm (ht.1 a hat))
      subst hab
      congr 1
      refine ih hs.2 ht.2 fun e => ⟨fun he => ?_, fun he => ?_⟩
      · rcases List.mem_cons.1 ((hm e).1 (List.mem_cons_of_mem _ he)) with rfl | he'
        · exact absurd (hs.1 e he) (Value.lt_irrefl _)
        · exact he'
      · rcases List.mem_cons.1 ((hm e).2 (List.mem_cons_of_mem _ he)) with rfl | he'
        · exact absurd (ht.1 e he) (Value.lt_irrefl _)
        · exact he'

/-- A map is known by its answers. -/
theorem ext_get? {m m' : ValueMap α} (h : ∀ k, m.get? k = m'.get? k) : m = m' := by
  have he : m.entries = m'.entries :=
    eq_of_sorted_of_mem m.sorted m'.sorted fun ⟨k, x⟩ => by
      rw [← get?_eq_some_iff, ← get?_eq_some_iff, h]
  obtain ⟨l, hl⟩ := m
  obtain ⟨l', hl'⟩ := m'
  simp only at he
  subst he
  rfl

end ValueMap
end RelStore
