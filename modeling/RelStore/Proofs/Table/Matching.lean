import Mathlib.Data.List.Sort
import RelStore.Heading
import RelStore.Proofs.Table.RowChange

/-! The rows that satisfy a condition, before and after a change was tried for the first of
them. Those that still satisfy it among the first have nothing left to do, and the others
are the same as before. -/
namespace RelStore

instance Value.irrefl_lt : Std.Irrefl fun a b : Value => a < b := ⟨Value.lt_irrefl⟩

instance Value.antisymm_lt : Std.Antisymm fun a b : Value => a < b :=
  ⟨fun _ _ h h' => absurd h' (Value.lt_asymm h)⟩

namespace Table
variable {t : Table} {c : Condition} {s : Schema} {call : Value → Call} {key : Value}

/-- The keys of the rows that satisfy a condition, rising. -/
def matching (c : Condition) (t : Table) : List Value :=
  (t.entries.filter fun e => c.holds (.ofSchema t.schema) e.2).map (·.1)

theorem mem_matching :
    key ∈ matching c t ↔
      ∃ row, t.row? key = some row ∧ c.holds (.ofSchema t.schema) row = true := by
  simp only [matching, List.mem_map, List.mem_filter, Prod.exists, row?_eq_some_iff]
  constructor
  · rintro ⟨k, row, ⟨hm, hc⟩, rfl⟩
    exact ⟨row, hm, hc⟩
  · rintro ⟨row, hm, hc⟩
    exact ⟨key, row, ⟨hm, hc⟩, rfl⟩

theorem rising_matching (c : Condition) (t : Table) : (matching c t).Pairwise (· < ·) :=
  List.pairwise_map.2 (t.rows.sorted.filter _)

theorem nodup_matching (c : Condition) (t : Table) : (matching c t).Nodup :=
  (rising_matching c t).imp fun hlt => by
    rintro rfl
    exact Value.lt_irrefl _ hlt

/-- After a change was tried for the first of the rows that satisfy a condition, some of
these may satisfy it still; of the others the same ones do. -/
theorem RowChange.matching_swept (hc : RowChange s call) (k : Nat) :
    ∃ still, (∀ key ∈ still, key ∈ (matching c t).take k) ∧
      matching c (Table.swept call t ((matching c t).take k)) =
        still ++ (matching c t).drop k := by
  let first := (matching c t).take k
  let rest := (matching c t).drop k
  let u := Table.swept call t first
  have hall : first ++ rest = matching c t := List.take_append_drop k _
  have hrising : (first ++ rest).Pairwise (· < ·) := hall ▸ rising_matching c t
  obtain ⟨-, hrest, hcross⟩ := List.pairwise_append.1 hrising
  have hschema : u.schema = t.schema := schema_swept
  have hsame : ∀ key, key ∉ first → (key ∈ matching c u ↔ key ∈ rest) := by
    intro key hkey
    have hrow : u.row? key = t.row? key := hc.row?_swept hkey
    rw [mem_matching, hschema, hrow, ← mem_matching, ← hall, List.mem_append, or_iff_right hkey]
  refine ⟨(matching c u).filter (· ∈ first), fun key hkey => ?_, ?_⟩
  · simpa using (List.mem_filter.1 hkey).2
  · have hstill : ((matching c u).filter (· ∈ first)).Pairwise (· < ·) :=
      (rising_matching c u).filter _
    have hsorted : ((matching c u).filter (· ∈ first) ++ rest).Pairwise (· < ·) := by
      refine List.pairwise_append.2 ⟨hstill, hrest, fun a ha b hb => hcross a ?_ b hb⟩
      simpa using (List.mem_filter.1 ha).2
    refine List.Pairwise.eq_of_mem_iff (rising_matching c u) hsorted fun key => ?_
    show key ∈ matching c u ↔ key ∈ (matching c u).filter (· ∈ first) ++ rest
    simp only [List.mem_append, List.mem_filter, decide_eq_true_eq]
    by_cases hkey : key ∈ first
    · have hnot : key ∉ rest := fun hm => Value.lt_irrefl key (hcross key hkey key hm)
      simp only [hkey, and_true, hnot, or_false]
    · simp only [hkey, and_false, false_or]
      exact hsame key hkey

theorem RowChange.swept_again (hc : RowChange s call) (h : t.Sound) (hs : t.schema = s) (k : Nat) :
    let u := Table.swept call t ((matching c t).take k)
    Table.swept call u (matching c u) = Table.swept call t (matching c t) := by
  intro u
  obtain ⟨still, hstill, hmatching⟩ := hc.matching_swept (c := c) (t := t) k
  have hnothing : Table.swept call u still = u :=
    swept_self fun key hkey => hc.settled h hs (hstill key hkey)
  calc Table.swept call u (matching c u)
      = Table.swept call (Table.swept call u still) ((matching c t).drop k) := by
        rw [hmatching, swept_append]
    _ = Table.swept call u ((matching c t).drop k) := by rw [hnothing]
    _ = Table.swept call t (matching c t) := by
        rw [← swept_append, List.take_append_drop]

end Table
end RelStore
