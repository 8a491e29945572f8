import Mathlib.Data.List.Sort
import RelStore.Proofs.Table.InPlace
import RelStore.Proofs.Table.Made

/-! Reading a table whose rows and indexes are kept in no order that one could know. Entries are
put into the order of their keys, and an index is found by its position, so that the order in
which they were kept is lost. -/
namespace RelStore

/-- A smaller integer, or a text that has the smaller character where the two first differ, or
ends there. -/
inductive Value.Precedes : Value → Value → Prop
  | int {m n : Int64} (h : m.toInt < n.toInt) : Precedes (.int m) (.int n)
  | text {a b : String} (h : List.Lex (fun c d : Char => c.toNat < d.toNat) a.toList b.toList) :
    Precedes (.text a) (.text b)

theorem Text.charsBefore_iff_lex {as bs : List Char} :
    charsBefore as bs = true ↔ List.Lex (fun c d : Char => c.toNat < d.toNat) as bs := by
  induction as generalizing bs with
  | nil =>
    cases bs with
    | nil => simp [charsBefore]
    | cons b bs => simp [charsBefore]
  | cons a as ih =>
    cases bs with
    | nil => simp [charsBefore]
    | cons b bs =>
      rw [charsBefore, Bool.or_eq_true, Bool.and_eq_true, decide_eq_true_iff, beq_iff_eq, ih]
      constructor
      · rintro (h | ⟨rfl, h⟩)
        · exact .rel h
        · exact .cons h
      · intro h
        cases h with
        | rel h => exact .inl h
        | cons h => exact .inr ⟨rfl, h⟩

namespace Value
variable {v w : Value}

theorem lt_iff_precedes (h : v.type = w.type) : v < w ↔ v.Precedes w := by
  cases v with
  | int m =>
    cases w with
    | int n =>
      rw [int_lt_int, Int64.lt_iff_toInt_lt]
      exact ⟨.int, fun h => by cases h; assumption⟩
    | text b => cases h
  | text a =>
    cases w with
    | int n => cases h
    | text b =>
      rw [text_lt_text, Text.before, Text.charsBefore_iff_lex]
      exact ⟨.text, fun h => by cases h; assumption⟩

theorem not_lt_trans {x : Value} (h : ¬ w < v) (h' : ¬ x < w) : ¬ x < v := by
  intro hlt
  by_cases hvw : v < w
  · exact h' (Value.lt_trans hlt hvw)
  · exact h' (Value.eq_of_not_lt hvw h ▸ hlt)

theorem not_lt_total : ¬ w < v ∨ ¬ v < w := by
  by_cases h : w < v
  · exact .inr (Value.lt_asymm h)
  · exact .inl h

theorem compare_of_type (h : v.type = w.type) :
    v.compare w = .ok (if v < w then .lt else if v = w then .eq else .gt) := by
  rw [compare, order?, if_pos h]

end Value

namespace Table
variable {s : Schema} {t u : Table} {l m : List (Value × Row)}

def notAfter (e e' : Value × Row) : Bool :=
  match e.1.compare e'.1 with
  | .ok .gt => false
  | _ => true

def readOut (l : List (Value × Row)) : List (Value × Row) := l.mergeSort notAfter

/-- The keys of a table have the type of its primary column. -/
theorem Sound.type_key (h : t.Sound) :
    ∃ type, ∀ e ∈ t.entries, e.1.type = type := by
  obtain ⟨c, hc, -⟩ := h.keyColumn
  refine ⟨c.type, fun e he => ?_⟩
  have hrow : t.row? e.1 = some e.2 := row?_eq_some_iff.2 he
  have htype := congrArg (·[t.keyPosition]?) (h.typed hrow)
  simp only [List.getElem?_map, h.keyed hrow, hc] at htype
  exact Option.some.inj htype

theorem notAfter_iff {e e' : Value × Row} (h : e.1.type = e'.1.type) :
    notAfter e e' = true ↔ ¬ e'.1 < e.1 := by
  rw [notAfter, Value.compare_of_type h]
  by_cases hlt : e.1 < e'.1
  · simp [hlt, Value.lt_asymm hlt]
  · by_cases heq : e.1 = e'.1
    · simp [heq, Value.lt_irrefl]
    · have hgt : e'.1 < e.1 := by
        by_contra hnot
        exact heq (Value.eq_of_not_lt hlt hnot)
      simp [hlt, heq, hgt]

/-- Entries whose keys are of one type come in the order of all values. -/
theorem rising_readOut {type : ColumnType} (h : ∀ e ∈ l, e.1.type = type) :
    (readOut l).Pairwise fun e e' => ¬ e'.1 < e.1 := by
  have hsame : ∀ e ∈ l, ∀ e' ∈ l, notAfter e e' = decide (¬ e'.1 < e.1) := by
    intro e he e' he'
    rw [Bool.eq_iff_iff, notAfter_iff ((h e he).trans (h e' he').symm), decide_eq_true_iff]
  have hsorted : readOut l = l.mergeSort fun e e' => decide (¬ e'.1 < e.1) := by
    have hmap := List.map_mergeSort (f := fun e : Value × Row => e)
      (s := fun e e' => decide (¬ e'.1 < e.1)) hsame
    rwa [List.map_id', List.map_id'] at hmap
  rw [hsorted]
  refine (List.pairwise_mergeSort ?_ ?_ l).imp fun h => of_decide_eq_true h
  · intro e e' e'' h h'
    exact decide_eq_true (Value.not_lt_trans (of_decide_eq_true h) (of_decide_eq_true h'))
  · intro e e'
    rw [Bool.or_eq_true, decide_eq_true_iff, decide_eq_true_iff]
    exact Value.not_lt_total

theorem Sound.readOut_of_perm (h : t.Sound) (hl : l.Perm t.entries) : readOut l = t.entries := by
  obtain ⟨type, htype⟩ := h.type_key
  have hperm : (readOut l).Perm t.entries := (List.mergeSort_perm l _).trans hl
  have hrising := rising_readOut fun e he => htype e (hl.mem_iff.1 he)
  refine hperm.eq_of_pairwise ?_ hrising (t.rows.sorted.imp Value.lt_asymm)
  -- two entries of one key are the same
  intro e e' he he' h h'
  have hkey : e.1 = e'.1 := Value.eq_of_not_lt h' h
  have hrow : t.row? e.1 = some e.2 := row?_eq_some_iff.2 (hperm.mem_iff.1 he)
  have hrow' : t.row? e.1 = some e'.2 := hkey ▸ row?_eq_some_iff.2 he'
  exact Prod.ext hkey (Option.some.inj (hrow.symm.trans hrow'))

theorem Sound.rising_entries (h : t.Sound) :
    t.entries.Pairwise fun e e' => e.1.compare e'.1 = .ok .lt ∧ e.1.Precedes e'.1 := by
  obtain ⟨type, htype⟩ := h.type_key
  refine t.rows.sorted.imp_of_mem fun {e e'} he he' hlt => ?_
  have htypes : e.1.type = e'.1.type := (htype e he).trans (htype e' he').symm
  exact ⟨by rw [Value.compare_of_type htypes, if_pos hlt], (Value.lt_iff_precedes htypes).1 hlt⟩

theorem Sound.nodup_allRows (h : t.Sound) : t.allRows.Nodup := by
  refine List.pairwise_map.2 (t.rows.sorted.imp_of_mem fun {e e'} he he' hlt hrow => ?_)
  have hkey := h.keyed (row?_eq_some_iff.2 he)
  have hkey' := h.keyed (row?_eq_some_iff.2 he')
  rw [hrow, hkey'] at hkey
  exact Value.ne_of_lt hlt (Option.some.inj hkey).symm

theorem nodup_emptyIndexes (j : Nat) (cs : List Column) :
    ((emptyIndexes j cs).map (·.1)).Nodup := by
  induction cs generalizing j with
  | nil => exact List.nodup_nil
  | cons c cs ih =>
    rw [emptyIndexes]
    split
    · refine List.nodup_cons.2 ⟨fun hj => ?_, ih (j + 1)⟩
      obtain ⟨e, he, hej⟩ := List.mem_map.1 hj
      obtain ⟨i, d, -, -, rfl⟩ := mem_emptyIndexes.1 he
      simp only at hej
      omega
    · exact ih (j + 1)

theorem Sound.nodup_positions (h : t.Sound) : (t.indexes.map (·.1)).Nodup := by
  have hpositions : ∀ l : List (Nat × Index), l.map (·.1) = (places l).map (·.1) := by
    intro l
    rw [places, List.map_map]
    rfl
  rw [hpositions, h.placed, ← hpositions]
  exact nodup_emptyIndexes 0 t.schema.columns

theorem lookup_eq_some_iff_mem {l : List (Nat × Index)} {i : Nat} {ix : Index}
    (h : (l.map (·.1)).Nodup) : l.lookup i = some ix ↔ (i, ix) ∈ l := by
  induction l with
  | nil => simp
  | cons e rest ih =>
    obtain ⟨j, jx⟩ := e
    obtain ⟨hj, hrest⟩ := List.nodup_cons.1 h
    rw [List.lookup_cons]
    by_cases hij : i = j
    · subst hij
      have hnot : (i, ix) ∉ rest := fun hmem => hj (List.mem_map.2 ⟨_, hmem, rfl⟩)
      simp [hnot, eq_comm]
    · have hb : (i == j) = false := beq_eq_false_iff_ne.2 hij
      simp [hb, hij, ih hrest]

theorem Sound.index?_withIndexes {l : List (Nat × Index)} (h : t.Sound) (hl : l.Perm t.indexes)
    (i : Nat) : (t.withIndexes l).index? i = t.index? i := by
  have hnodup : (l.map (·.1)).Nodup := (hl.map _).nodup_iff.2 h.nodup_positions
  refine Option.ext fun ix => ?_
  rw [index?, index?, lookup_eq_some_iff_mem h.nodup_positions]
  exact (lookup_eq_some_iff_mem hnodup).trans hl.mem_iff

end Table
end RelStore
