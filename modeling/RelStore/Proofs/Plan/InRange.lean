import RelStore.Proofs.Database.Ensures
import RelStore.Proofs.Plan.Naive
import RelStore.Proofs.Table.Made

/-! Every row that a plan makes has a cell for each of its columns, so that no plan and no
choice of a plan reads beyond the end of a list. -/
namespace RelStore

/-- An error other than that of a list read beyond its end. -/
def Error.InRange (e : Error) : Prop := e.errorClass ≠ .fault

theorem Schema.columnAt_exists {s : Schema} {i : Nat} (h : i < (Heading.ofSchema s).length) :
    ∃ c, s.columnAt i = .ok c := by
  rw [Heading.length_ofSchema] at h
  exact ⟨s.columns[i], columnAt_eq_ok_iff.2 (List.getElem?_eq_getElem h)⟩

namespace Plan
variable {signal : Signal} {t left right : Table} {n m : Nat} {rows : List Row}

def HasWidth (n : Nat) (rows : List Row) : Prop := ∀ row ∈ rows, row.length = n

def Fits : Plan → Prop
  | scan t _ => t.Sound
  | indexScan t _ _ => t.Sound
  | join l r i j => l.Fits ∧ r.Fits ∧ i < l.heading.length ∧ j < r.heading.length
  | filter _ p => p.Fits
  | limit _ p => p.Fits
  | marked _ p => p.Fits

theorem ensures_applyTest (test : Option RowTest) (row : Row) :
    (applyTest test row).Ensures (fun _ => True) Error.InRange := by
  cases test with
  | none => exact Watched.ensures_pure trivial
  | some test =>
    obtain ⟨keep, label⟩ := test
    cases label with
    | none => exact Watched.ensures_pure trivial
    | some label =>
      exact (Watched.ensures_pass label).bind fun _ _ => Watched.ensures_pure trivial

/-- A scan makes some of the rows. -/
theorem ensures_scanRows (test : Option RowTest) (h : HasWidth n rows) :
    (scanRows signal test rows).Ensures (HasWidth n) Error.InRange := by
  induction rows with
  | nil => exact Watched.ensures_pure nofun
  | cons row rest ih =>
    obtain ⟨hrow, hrest⟩ := List.forall_mem_cons.1 h
    refine (Watched.ensures_poll nofun).bind fun _ _ => ?_
    refine (ensures_applyTest test row).bind fun kept _ => ?_
    refine (ih hrest).bind fun out hout => Watched.ensures_pure ?_
    cases kept with
    | true => exact List.forall_mem_cons.2 ⟨hrow, hout⟩
    | false => exact hout

theorem hasWidth_joinRow {i j : Nat} {row : Row} {rightRows : List Row} (hrow : row.length = n)
    (hright : HasWidth m rightRows) : HasWidth (n + m) (joinRow i j rightRows row) := by
  intro made hmade
  obtain ⟨r, hr, rfl⟩ := Query.append_of_mem_joinRow hmade
  rw [List.length_append, hrow, hright r hr]

theorem ensures_joinRows {i j : Nat} {leftRows rightRows : List Row} (hleft : HasWidth n leftRows)
    (hright : HasWidth m rightRows) :
    (joinRows signal i j rightRows leftRows).Ensures (HasWidth (n + m)) Error.InRange := by
  induction leftRows with
  | nil => exact Watched.ensures_pure nofun
  | cons row rest ih =>
    obtain ⟨hrow, hrest⟩ := List.forall_mem_cons.1 hleft
    refine (Watched.ensures_poll nofun).bind fun _ _ => ?_
    refine (ih hrest).bind fun out hout => Watched.ensures_pure ?_
    exact List.forall_mem_append.2 ⟨hasWidth_joinRow hrow hright, hout⟩

theorem meets_find (h : t.Sound) (column : String) (v : Value) :
    Meets (fun row? => HasWidth (Heading.ofSchema t.schema).length row?.toList) Error.InRange
      (t.find column v) := by
  unfold Table.find
  split
  · split
    · rename_i ix _
      intro row hrow
      obtain ⟨key, -, hrow⟩ := Option.bind_eq_some_iff.1 (Option.mem_toList.1 hrow)
      exact length_of_mem_allRows h (Table.mem_allRows_iff.2 ⟨key, hrow⟩)
    · nofun
  · nofun

/-- Under any signal each row of a plan has a cell for each of its columns. -/
theorem ensures_run {p : Plan} (h : p.Fits) :
    (p.run signal).Ensures (HasWidth p.heading.length) Error.InRange := by
  induction p with
  | scan table test =>
    exact ensures_scanRows test fun row hrow => length_of_mem_allRows h hrow
  | indexScan table column value =>
    refine (Watched.ensures_poll nofun).bind fun _ _ => ?_
    refine (Watched.ensures_lift (meets_find h column value)).bind fun found hfound => ?_
    exact Watched.ensures_pure hfound
  | join l r i j ihl ihr =>
    refine (ihl h.1).bind fun leftRows hleft => (ihr h.2.1).bind fun rightRows hright => ?_
    rw [heading, List.length_append]
    exact ensures_joinRows hleft hright
  | filter c p ih => exact (ih h).bind fun rows hrows => ensures_scanRows _ hrows
  | limit count p ih =>
    refine (ih h).bind fun rows hrows => Watched.ensures_pure ?_
    exact fun row hrow => hrows row (List.mem_of_mem_take hrow)
  | marked label p ih =>
    refine (ih h).bind fun rows hrows => ?_
    exact (Watched.ensures_pass label).bind fun _ _ => Watched.ensures_pure hrows

theorem fits_access (h : t.Sound) (a : Access) : (a.plan t).Fits := by
  cases a <;> exact h

theorem meets_chooseAccess (t : Table) (c : Option Condition) :
    Meets (fun _ => True) Error.InRange (chooseAccess t c) := by
  obtain ⟨a, ha⟩ := chooseAccess_exists t c
  rw [ha]
  trivial

theorem meets_operands (left right : String) (j : Join) :
    Meets (fun _ => True) Error.InRange (operands left right j) := by
  unfold operands
  split <;> first | trivial | nofun

theorem meets_joinPosition (t : Table) (column : String) :
    Meets (· < (Heading.ofSchema t.schema).length) Error.InRange (joinPosition t column) := by
  unfold joinPosition
  split
  · rename_i i hi
    exact Heading.resolve?_lt hi
  · nofun

theorem meets_leftOnly (joined : Heading) (count : Nat) (names : List String) :
    Meets (fun _ => True) Error.InRange (leftOnly joined count names) := by
  induction names with
  | nil => trivial
  | cons name rest ih =>
    rw [leftOnly]
    split
    · rintro ⟨⟩
    · refine ih.bind fun others _ => ?_
      split <;> trivial

theorem meets_chooseJoin (hl : left.Sound) (hr : right.Sound) (j : Join) (c : Option Condition) :
    Meets (fun r => r.1.Fits) Error.InRange (chooseJoin left right j c) := by
  have hwhole : (scan right none).Fits := hr
  refine (meets_operands left.name right.name j).bind fun columns _ => ?_
  refine (meets_joinPosition left columns.1).bind fun i hi => ?_
  refine (meets_joinPosition right columns.2).bind fun k hk => ?_
  have hjoin : ∀ a : Access, (join (a.plan left) (.scan right none) i k).Fits := by
    intro a
    refine ⟨fits_access hl a, hwhole, ?_, hk⟩
    rw [heading_access]
    exact hi
  cases c with
  | none => exact hjoin .whole
  | some c =>
    refine (meets_leftOnly _ _ _).bind fun only _ => ?_
    cases only with
    | true => exact (meets_chooseAccess left (some c)).bind fun access _ => hjoin access
    | false => exact hjoin .whole

theorem meets_choose (q : Query) {joined : Option (Join × Table)} (hl : left.Sound)
    (hr : ∀ j u, joined = some (j, u) → u.Sound) :
    Meets (fun r => r.1.Fits) Error.InRange (choose q left joined) := by
  have hrows : Meets (fun r => r.1.Fits) Error.InRange (chooseRows q left joined) := by
    cases joined with
    | none => exact (meets_chooseAccess left _).bind fun access _ => fits_access hl access
    | some jr => exact meets_chooseJoin hl (hr jr.1 jr.2 rfl) jr.1 q.condition
  refine hrows.bind fun r hfits => ?_
  cases q.limit with
  | none => exact hfits
  | some count => exact hfits

end Plan
end RelStore
