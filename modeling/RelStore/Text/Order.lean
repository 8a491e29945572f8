/-! The order of texts: by the code points of the first characters in which they differ,
and a text before its continuations. -/
namespace RelStore.Text

def charsBefore : List Char → List Char → Bool
  | _, [] => false
  | [], _ :: _ => true
  | a :: as, b :: bs => a.toNat < b.toNat || (a == b && charsBefore as bs)

/-- Whether a text comes before another one. -/
def before (s t : String) : Bool := charsBefore s.toList t.toList

theorem charsBefore_irrefl (as : List Char) : charsBefore as as = false := by
  induction as with
  | nil => rfl
  | cons a as ih => simp [charsBefore, ih]

theorem charsBefore_trans {as bs cs : List Char} (h : charsBefore as bs = true)
    (h' : charsBefore bs cs = true) : charsBefore as cs = true := by
  induction as generalizing bs cs with
  | nil =>
    cases bs <;> cases cs <;> simp_all [charsBefore]
  | cons a as ih =>
    cases bs with
    | nil => simp [charsBefore] at h
    | cons b bs =>
      cases cs with
      | nil => simp [charsBefore] at h'
      | cons c cs =>
        simp only [charsBefore, Bool.or_eq_true, decide_eq_true_eq, Bool.and_eq_true,
          beq_iff_eq] at h h' ⊢
        rcases h with h | ⟨rfl, h⟩
        · rcases h' with h' | ⟨rfl, h'⟩
          · exact .inl (Nat.lt_trans h h')
          · exact .inl h
        · rcases h' with h' | ⟨rfl, h'⟩
          · exact .inl h'
          · exact .inr ⟨rfl, ih h h'⟩

/-- Two lists neither of which is before the other are the same. -/
theorem eq_of_not_charsBefore {as bs : List Char} (h : charsBefore as bs = false)
    (h' : charsBefore bs as = false) : as = bs := by
  induction as generalizing bs with
  | nil => cases bs <;> simp_all [charsBefore]
  | cons a as ih =>
    cases bs with
    | nil => simp [charsBefore] at h'
    | cons b bs =>
      simp only [charsBefore, Bool.or_eq_false_iff, decide_eq_false_iff_not,
        Bool.and_eq_false_iff, beq_eq_false_iff_ne] at h h'
      have hab : a = b := Char.ext (UInt32.toNat_inj.1 (by
        have := h.1; have := h'.1; simp only [Char.toNat] at *; omega))
      subst hab
      rw [ih (by simpa using h.2) (by simpa using h'.2)]

theorem before_irrefl (s : String) : before s s = false := charsBefore_irrefl s.toList

theorem before_trans {s t u : String} (h : before s t = true) (h' : before t u = true) :
    before s u = true := charsBefore_trans h h'

theorem eq_of_not_before {s t : String} (h : before s t = false) (h' : before t s = false) :
    s = t := String.toList_inj.1 (eq_of_not_charsBefore h h')

end RelStore.Text
