import RelStore.Text.Order

/-! Lists of names in order. -/
namespace RelStore.Text

/-- Puts a name at its place in a list of rising names, unless it is there. -/
def insertName (name : String) : List String → List String
  | [] => [name]
  | n :: rest =>
    if before name n then name :: n :: rest
    else if name = n then n :: rest
    else n :: insertName name rest

def sortNames (names : List String) : List String := names.foldr insertName []

@[simp] theorem mem_insertName {name n : String} {names : List String} :
    n ∈ insertName name names ↔ n = name ∨ n ∈ names := by
  induction names with
  | nil => simp [insertName]
  | cons m rest ih =>
    simp only [insertName]
    split
    · simp
    · split
      · rename_i h; subst h; simp
      · simp only [List.mem_cons, ih]
        constructor
        · rintro (h | h | h) <;> simp [h]
        · rintro (h | h | h) <;> simp [h]

@[simp] theorem mem_sortNames {n : String} {names : List String} :
    n ∈ sortNames names ↔ n ∈ names := by
  induction names with
  | nil => simp [sortNames]
  | cons m rest ih =>
    have h : sortNames (m :: rest) = insertName m (sortNames rest) := rfl
    simp [h, ih]

end RelStore.Text
