import RelStore.Proofs.Plan.Refused

/-! Conditions that are applied below a join. Whether a condition may go there is read off the
columns of both tables, and then the columns of the left table alone say what it means. -/
namespace RelStore
namespace Plan
variable {left : Table} {right : Schema} {c : Condition} {a : Access}

/-- The position at which a way to rows looks for a column of the condition. A test of the rows
asks for the name itself, an index for the name of its own column. -/
def Access.position? (s : Schema) : Access → String → Option Nat
  | whole, _ => none
  | tested _, name => Heading.resolve? (.ofSchema s) name
  | indexed column _, _ => s.position? column

theorem position?_chooseAccess (hlisted : left.schema.Listed)
    (hnames : left.schema.columnNames.Nodup) (ha : chooseAccess left (some c) = .ok a)
    {name : String} (hname : name ∈ c.columns) {i : Nat}
    (hi : Heading.resolve? (.ofSchema left.schema) name = some i) :
    a.position? left.schema name = some i := by
  rcases chooseAccess_cases ha with rfl | ⟨n, value, j, column, rfl, hj, hcolumn, -, rfl⟩
  · exact hi
  · -- the name is the only one of the equation, and the index is that of its column
    obtain rfl : name = n := List.mem_singleton.1 hname
    obtain rfl : j = i := Option.some.inj (hj.symm.trans hi)
    exact Schema.position?_column hlisted hnames hcolumn

/-- A condition that speaks of columns of the left table alone can be applied below a join. A left
row satisfies it there exactly if it does so beside a right row, whatever this is. If the left
columns are listed and have different names, the way that is chosen to the left rows looks for each
name at the position that the name has among the columns of both tables. So of a sound table it
makes the rows that the condition lets pass above the join. -/
theorem pushed_below_join (h : leftOnly (.ofSchema left.schema ++ .ofSchema right)
      (Heading.ofSchema left.schema).length c.columns = .ok true) :
    (∀ l r : Row, l.length = (Heading.ofSchema left.schema).length →
      c.holds (.ofSchema left.schema ++ .ofSchema right) (l ++ r) =
        c.holds (.ofSchema left.schema) l) ∧
    ∃ a, chooseAccess left (some c) = .ok a ∧
      (left.schema.Listed → left.schema.columnNames.Nodup → ∀ name ∈ c.columns, ∃ i,
        Heading.resolve? (.ofSchema left.schema ++ .ofSchema right) name = some i ∧
        i < (Heading.ofSchema left.schema).length ∧ a.position? left.schema name = some i) ∧
      (left.Sound → ∀ r, (a.plan left).rows = .ok (left.allRows.filter fun l =>
        c.holds (.ofSchema left.schema ++ .ofSchema right) (l ++ r))) := by
  have hcolumns := resolve?_of_leftOnly h
  have hholds : ∀ l r : Row, l.length = (Heading.ofSchema left.schema).length →
      c.holds (.ofSchema left.schema ++ .ofSchema right) (l ++ r) =
        c.holds (.ofSchema left.schema) l :=
    fun l r hl => Condition.holds_append hl hcolumns
  obtain ⟨a, ha⟩ := chooseAccess_exists left (some c)
  refine ⟨hholds, a, ha, fun hlisted hnames name hname => ?_, fun hsound r => ?_⟩
  · obtain ⟨i, hi, hlt⟩ := hcolumns name hname
    have hleft := Heading.resolve?_of_append hi hlt
    exact ⟨i, hi, hlt, position?_chooseAccess hlisted hnames ha hname hleft⟩
  · rw [rows_access hsound ha]
    refine congrArg _ (List.filter_congr fun l hl => ?_)
    exact (hholds l r (length_of_mem_allRows hsound hl)).symm

def joinedMembers : Table :=
  Table.membersAfter ⟨Table.members, 0, .empty, Table.emptyIndexes 0 Table.members.columns⟩

def visits : Schema :=
  .ofColumns "visits" [⟨"id", .int, true, false⟩, ⟨"member", .int, false, false⟩]

theorem pushed_below_join_members :
    leftOnly (.ofSchema joinedMembers.schema ++ .ofSchema visits)
      (Heading.ofSchema joinedMembers.schema).length ["members.id"] = .ok true ∧
    (∀ r, (Condition.equals "members.id" (.int 2)).holds
      (.ofSchema joinedMembers.schema ++ .ofSchema visits) ([.int 2, .text "b"] ++ r) = true) ∧
    chooseAccess joinedMembers (some (.equals "members.id" (.int 2))) =
      .ok (.indexed "id" (.int 2)) ∧
    (Access.indexed "id" (.int 2)).position? joinedMembers.schema "members.id" = some 0 ∧
    ∀ r, joinedMembers.allRows.filter (fun l => (Condition.equals "members.id" (.int 2)).holds
      (.ofSchema joinedMembers.schema ++ .ofSchema visits) (l ++ r)) = [[.int 2, .text "b"]] := by
  have hleft : leftOnly (.ofSchema joinedMembers.schema ++ .ofSchema visits)
      (Heading.ofSchema joinedMembers.schema).length
      (Condition.equals "members.id" (.int 2)).columns = .ok true := rfl
  have hcreate : Table.create Table.members =
      .ok ⟨Table.members, 0, .empty, Table.emptyIndexes 0 Table.members.columns⟩ := rfl
  have hreachable : Table.Reachable Table.members joinedMembers := by
    unfold joinedMembers
    exact ((((Table.Reachable.create hcreate).call _).call _).call _).call _
  have hsound : joinedMembers.Sound := hreachable.sound
  have haccess : chooseAccess joinedMembers (some (.equals "members.id" (.int 2))) =
      .ok (.indexed "id" (.int 2)) := rfl
  have hfound : ((Access.indexed "id" (.int 2)).plan joinedMembers).rows =
      .ok [[.int 2, .text "b"]] := rfl
  obtain ⟨hholds, a, ha, hposition, hrows⟩ := pushed_below_join hleft
  obtain rfl : Access.indexed "id" (.int 2) = a := Except.ok.inj (haccess.symm.trans ha)
  obtain ⟨i, hi, -, hfirst⟩ := hposition hsound.listed hsound.proper.nodup "members.id"
    (List.mem_singleton_self _)
  have hjoined : Heading.resolve? (.ofSchema joinedMembers.schema ++ .ofSchema visits)
      "members.id" = some 0 := rfl
  obtain rfl : i = 0 := Option.some.inj (hi.symm.trans hjoined)
  exact ⟨hleft, fun r => hholds _ r rfl, haccess, hfirst,
    fun r => Except.ok.inj ((hrows hsound r).symm.trans hfound)⟩

end Plan
end RelStore
