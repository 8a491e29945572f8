import RelStore.Plan.Choice
import RelStore.Proofs.Heading
import RelStore.Proofs.Plan.Rows
import RelStore.Proofs.Table.Reachable

/-! The naive reading of a query: all rows of its tables are gone through, and the condition
is applied to each. Whatever plan is chosen, its rows are these. -/
namespace RelStore
namespace Query

def agree (i k : Nat) (p : Row × Row) : Bool :=
  match p.1[i]?, p.2[k]? with
  | some v, some w => v.sqlEq w
  | _, _ => false

def joined (i k : Nat) (left right : List Row) : List Row :=
  ((left.flatMap fun l => right.map fun r => (l, r)).filter (agree i k)).map fun p => p.1 ++ p.2

/-- The columns and the rows that a query chooses from. -/
def source (left : Table) : Option (Join × Table) → Except Error (Heading × List Row)
  | none => pure (.ofSchema left.schema, left.allRows)
  | some (j, right) => do
    let (leftColumn, rightColumn) ← Plan.operands left.name right.name j
    let i ← Plan.joinPosition left leftColumn
    let k ← Plan.joinPosition right rightColumn
    pure (.ofSchema left.schema ++ .ofSchema right.schema,
      joined i k left.allRows right.allRows)

def admits (c : Option Condition) (h : Heading) (row : Row) : Bool := c.all fun c => c.holds h row

/-- The rows that satisfy the condition of a query, as far as its limit goes. -/
def chosen (q : Query) (h : Heading) (rows : List Row) : List Row :=
  match q.limit with
  | some n => (rows.filter (admits q.condition h)).take n
  | none => rows.filter (admits q.condition h)

theorem joined_cons (i k : Nat) (l : Row) (left right : List Row) :
    joined i k (l :: left) right = Plan.joinRow i k right l ++ joined i k left right := by
  have hrow : ((right.map fun r => (l, r)).filter (agree i k)).map (fun p => p.1 ++ p.2) =
      Plan.joinRow i k right l := by
    rw [List.filter_map, List.map_map, Plan.joinRow]
    cases hv : l[i]? with
    | none => simp [Function.comp_def, agree, hv]
    | some v =>
      show (right.filter fun r => agree i k (l, r)).map (l ++ ·) = _
      congr 2
      funext r
      simp only [agree, hv]
      cases r[k]? <;> rfl
  rw [joined, List.flatMap_cons, List.filter_append, List.map_append, hrow]
  rfl

theorem flatMap_joinRow (i k : Nat) (left right : List Row) :
    left.flatMap (Plan.joinRow i k right) = joined i k left right := by
  induction left with
  | nil => rfl
  | cons l left ih => rw [List.flatMap_cons, joined_cons, ih]

theorem append_of_mem_joinRow {i k : Nat} {right : List Row} {l row : Row}
    (h : row ∈ Plan.joinRow i k right l) : ∃ r ∈ right, row = l ++ r := by
  rw [Plan.joinRow] at h
  split at h
  · cases h
  · obtain ⟨r, hr, rfl⟩ := List.mem_map.1 h
    exact ⟨r, (List.mem_filter.1 hr).1, rfl⟩

theorem joined_filter {i k : Nat} {p p' : Row → Bool} {left right : List Row}
    (h : ∀ l ∈ left, ∀ r, p' (l ++ r) = p l) :
    joined i k (left.filter p) right = (joined i k left right).filter p' := by
  induction left with
  | nil => rfl
  | cons l left ih =>
    have hrest := ih fun l hl => h l (List.mem_cons_of_mem _ hl)
    have hrow : ∀ row ∈ Plan.joinRow i k right l, p' row = p l := by
      intro row hrow
      obtain ⟨r, -, rfl⟩ := append_of_mem_joinRow hrow
      exact h l List.mem_cons_self r
    rw [joined_cons, List.filter_append, ← hrest, List.filter_cons]
    cases hp : p l with
    | true =>
      have hall : (Plan.joinRow i k right l).filter p' = Plan.joinRow i k right l := by
        rw [List.filter_eq_self]
        intro row hm
        rw [hrow row hm, hp]
      rw [hall, if_pos rfl, joined_cons]
    | false =>
      have hnone : (Plan.joinRow i k right l).filter p' = [] := by
        rw [List.filter_eq_nil_iff]
        intro row hm
        rw [hrow row hm, hp]
        exact Bool.false_ne_true
      rw [hnone, if_neg Bool.false_ne_true, List.nil_append]

end Query

namespace Plan
variable {left right : Table} {c : Option Condition} {a : Access}

theorem heading_access (t : Table) (a : Access) :
    (a.plan t).heading = Heading.ofSchema t.schema := by
  cases a <;> rfl

theorem sqlEq_cell (row : Row) (i : Nat) (value : Value) :
    (match row[i]? with
      | some cell => cell.sqlEq value
      | none => false) = decide (row[i]? = some value) := by
  cases row[i]? with
  | none => rfl
  | some cell =>
    rw [Bool.eq_iff_iff, Value.sqlEq_iff]
    simp

theorem chooseAccess_exists (t : Table) (c : Option Condition) :
    ∃ a, chooseAccess t c = .ok a := by
  cases c with
  | none => exact ⟨.whole, rfl⟩
  | some c =>
    rw [chooseAccess]
    split
    · exact ⟨_, rfl⟩
    · split
      · exact ⟨_, rfl⟩
      · rename_i i hi
        have hlt := Heading.resolve?_lt hi
        rw [Heading.length_ofSchema] at hlt
        rw [Schema.columnAt_eq_ok_iff.2 (List.getElem?_eq_getElem hlt)]
        exact ⟨_, rfl⟩

/-- A condition is tested on all rows, or it is one equation on an indexed column, whose index is
asked. -/
theorem chooseAccess_cases {c : Condition} (h : chooseAccess left (some c) = .ok a) :
    a = .tested c ∨ ∃ name value i column, c = .equals name value ∧
      Heading.resolve? (.ofSchema left.schema) name = some i ∧
      left.schema.columns[i]? = some column ∧ column.isIndexed = true ∧
      a = .indexed column.name value := by
  rw [chooseAccess] at h
  cases he : c.equation? with
  | none =>
    rw [he] at h
    cases h
    exact .inl rfl
  | some e =>
    obtain ⟨name, value⟩ := e
    cases hr : Heading.resolve? (.ofSchema left.schema) name with
    | none =>
      simp only [he, hr, Except.ok.injEq] at h
      exact .inl h.symm
    | some i =>
      simp only [he, hr] at h
      obtain ⟨column, hc, h⟩ := bind_eq_ok_iff.1 h
      by_cases hi : column.isIndexed = true
      · rw [if_pos hi] at h
        cases h
        exact .inr ⟨name, value, i, column, Condition.equation?_eq_some_iff.1 he, hr,
          Schema.columnAt_eq_ok_iff.1 hc, hi, rfl⟩
      · rw [if_neg hi] at h
        cases h
        exact .inl rfl

theorem rows_access (h : left.Sound) (ha : chooseAccess left c = .ok a) :
    (a.plan left).rows =
      .ok (left.allRows.filter (Query.admits c (.ofSchema left.schema))) := by
  cases c with
  | none =>
    cases ha
    rfl
  | some c =>
    rcases chooseAccess_cases ha with rfl | ⟨name, value, i, column, rfl, hr, hcol, hi, rfl⟩
    · rfl
    · -- the one row that the index finds is the one that satisfies the equation
      obtain ⟨ix, hix, -⟩ := h.index?_exists hcol hi
      have htest : Query.admits (some (.equals name value)) (.ofSchema left.schema) =
          fun row => decide (row[i]? = some value) := by
        funext row
        rw [← sqlEq_cell]
        cases hcell : row[i]? with
        | none => simp only [Query.admits, Option.all_some, Condition.holds, hr, hcell]
        | some v => simp only [Query.admits, Option.all_some, Condition.holds, hr, hcell]
      rw [htest, h.filter_rows hix, Access.plan, rows, h.find_column hcol hix]
      rfl

theorem length_of_mem_allRows {t : Table} (h : t.Sound) {row : Row} (hr : row ∈ t.allRows) :
    row.length = (Heading.ofSchema t.schema).length := by
  obtain ⟨e, he, rfl⟩ := List.mem_map.1 hr
  have ht := congrArg List.length (h.typed (Table.row?_eq_some_iff.2 he))
  rw [List.length_map, List.length_map] at ht
  rw [ht, Heading.length_ofSchema]

theorem rows_whole (t : Table) : (Access.whole.plan t).rows = .ok t.allRows := by
  rw [Access.plan, rows]
  exact congrArg _ (List.filter_eq_self.2 fun _ _ => rfl)

theorem rows_join {l : Plan} {i k : Nat} {rows : List Row} (hl : l.rows = .ok rows) :
    (join l (.scan right none) i k).rows = .ok (Query.joined i k rows right.allRows) := by
  have hr : (scan right none).rows = .ok right.allRows := rows_whole right
  rw [Plan.rows, hl, hr, ← Query.flatMap_joinRow]
  rfl

/-- A join answers by all pairs of rows, also where its condition was applied before. -/
theorem chooseJoin_eq_ok {j : Join} {p : Plan} (h : left.Sound)
    (hp : chooseJoin left right j c = .ok (p, a)) :
    ∃ rows, Query.source left (some (j, right)) = .ok (p.heading, rows) ∧
      p.rows = .ok (rows.filter (Query.admits c p.heading)) := by
  rw [chooseJoin] at hp
  obtain ⟨⟨leftColumn, rightColumn⟩, ho, hp⟩ := bind_eq_ok_iff.1 hp
  obtain ⟨i, hi, hp⟩ := bind_eq_ok_iff.1 hp
  obtain ⟨k, hk, hp⟩ := bind_eq_ok_iff.1 hp
  have hsource : Query.source left (some (j, right)) =
      .ok (.ofSchema left.schema ++ .ofSchema right.schema,
        Query.joined i k left.allRows right.allRows) := by
    simp only [Query.source, ho, hi, hk, bind, Except.bind, pure, Except.pure]
  refine ⟨Query.joined i k left.allRows right.allRows, ?_⟩
  cases c with
  | none =>
    cases hp
    refine ⟨hsource, ?_⟩
    rw [rows_join (rows_whole left)]
    exact congrArg _ (List.filter_eq_self.2 fun _ _ => rfl).symm
  | some c =>
    obtain ⟨only, honly, hp⟩ := bind_eq_ok_iff.1 hp
    cases only with
    | true =>
      obtain ⟨access, haccess, hp⟩ := bind_eq_ok_iff.1 hp
      cases hp
      have hheading : (join (a.plan left) (.scan right none) i k).heading =
          .ofSchema left.schema ++ .ofSchema right.schema := by
        rw [heading, heading_access]
        rfl
      rw [hheading]
      refine ⟨hsource, ?_⟩
      rw [rows_join (rows_access h haccess), Query.joined_filter]
      intro l hl r
      exact Condition.holds_append (length_of_mem_allRows h hl) (resolve?_of_leftOnly honly)
    | false =>
      cases hp
      refine ⟨hsource, ?_⟩
      rw [rows, rows_join (rows_whole left)]
      rfl

theorem choose_eq_ok {q : Query} {right : Option (Join × Table)} {p : Plan} {es : List Event}
    (h : left.Sound) (hp : choose q left right = .ok (p, es)) :
    ∃ rows, Query.source left right = .ok (p.heading, rows) ∧
      p.rows = .ok (q.chosen p.heading rows) := by
  obtain ⟨⟨base, access⟩, hbase, hp⟩ := bind_eq_ok_iff.1 hp
  have hrows : ∃ rows, Query.source left right = .ok (base.heading, rows) ∧
      base.rows = .ok (rows.filter (Query.admits q.condition base.heading)) := by
    cases right with
    | none =>
      obtain ⟨found, hfound, hb⟩ := bind_eq_ok_iff.1 hbase
      cases hb
      refine ⟨left.allRows, ?_, ?_⟩
      · rw [heading_access]
        rfl
      · rw [heading_access]
        exact rows_access h hfound
    | some jr => exact chooseJoin_eq_ok h hbase
  obtain ⟨rows, hsource, hrows⟩ := hrows
  refine ⟨rows, ?_⟩
  cases hp
  unfold Query.chosen
  cases q.limit with
  | none => exact ⟨hsource, hrows⟩
  | some n =>
    refine ⟨hsource, ?_⟩
    show (limit n base).rows = _
    rw [Plan.rows, hrows]
    rfl

end Plan
end RelStore
