import RelStore.Proofs.Heading
import RelStore.Proofs.Statement.Precedence

/-! What a condition means as it is written. Comparisons stand in a row, OR divides the row into
segments, and the condition holds if all comparisons of some segment are true. -/
namespace RelStore
namespace Condition

variable {h : Heading} {row : Row} {done : Option Condition} {run : Condition}
  {op : Connective} {e : String × Value} {l : List (Connective × (String × Value))}
  {es segment : List (String × Value)}

/-- A comparison is true of a row: there is one column only that answers to its name, and the row
has the value of the comparison there. -/
def IsTrue (h : Heading) (row : Row) (e : String × Value) : Prop :=
  ∃ i : Nat, (∃ a : Attribute, h[i]? = some a ∧ a.answersTo e.1 = true) ∧
    (∀ (j : Nat) (a : Attribute), h[j]? = some a → a.answersTo e.1 = true → j = i) ∧
    row[i]? = some e.2

theorem holds_equals : (Condition.equals e.1 e.2).holds h row = true ↔ IsTrue h row e := by
  unfold IsTrue
  simp only [← and_assoc, ← Heading.resolve?_eq_some_iff_unique]
  rw [holds]
  cases Heading.resolve? h e.1 with
  | none => simp
  | some i =>
    cases hcell : row[i]? with
    | none => simp [hcell]
    | some cell => simp [hcell, Value.sqlEq_iff]

theorem holds_and {c d : Condition} :
    (Condition.and c d).holds h row = true ↔ c.holds h row = true ∧ d.holds h row = true := by
  rw [holds, Bool.and_eq_true]

theorem holds_joinRun : (joinRun done run).holds h row = true ↔
    (∃ c ∈ done, c.holds h row = true) ∨ run.holds h row = true := by
  cases done with
  | none => simp [joinRun]
  | some c => simp [joinRun, holds]

def upToOr (l : List (Connective × (String × Value))) : List (String × Value) :=
  (l.takeWhile fun p => p.1 == .and).map Prod.snd

theorem upToOr_nil : upToOr [] = [] := rfl

theorem upToOr_and : upToOr ((.and, e) :: l) = e :: upToOr l := rfl

theorem upToOr_or : upToOr ((.or, e) :: l) = [] := rfl

/-- In a row of comparisons, each with what stands before it, the comparisons from one behind OR
up to the next OR. -/
def IsSegment (l : List (Connective × (String × Value))) (segment : List (String × Value)) : Prop :=
  ∃ before e after, l = before ++ (.or, e) :: after ∧ segment = e :: upToOr after

theorem not_isSegment_nil : ¬ IsSegment [] segment := by
  rintro ⟨before, e, after, hl, -⟩
  simp at hl

theorem isSegment_and : IsSegment ((.and, e) :: l) segment ↔ IsSegment l segment := by
  constructor
  · rintro ⟨before, e', after, hl, rfl⟩
    cases before with
    | nil => cases hl
    | cons p before =>
      cases hl
      exact ⟨before, e', after, rfl, rfl⟩
  · rintro ⟨before, e', after, rfl, rfl⟩
    exact ⟨(.and, e) :: before, e', after, rfl, rfl⟩

theorem isSegment_or :
    IsSegment ((.or, e) :: l) segment ↔ segment = e :: upToOr l ∨ IsSegment l segment := by
  constructor
  · rintro ⟨before, e', after, hl, rfl⟩
    cases before with
    | nil =>
      cases hl
      exact .inl rfl
    | cons p before =>
      cases hl
      exact .inr ⟨before, e', after, rfl, rfl⟩
  · rintro (rfl | ⟨before, e', after, rfl, rfl⟩)
    · exact ⟨[], e, l, rfl, rfl⟩
    · exact ⟨(.or, e) :: before, e', after, rfl, rfl⟩

def AllTrue (h : Heading) (row : Row) (es : List (String × Value)) : Prop :=
  ∀ e ∈ es, IsTrue h row e

theorem allTrue_nil : AllTrue h row [] := nofun

theorem allTrue_cons : AllTrue h row (e :: es) ↔ IsTrue h row e ∧ AllTrue h row es :=
  List.forall_mem_cons

def comparisons (l : List (Connective × (String × Value))) : List (Connective × Condition) :=
  l.map fun p => (p.1, .equals p.2.1 p.2.2)

theorem ofChain_and : ofChain done run (comparisons ((.and, e) :: l)) =
    ofChain done (.and run (.equals e.1 e.2)) (comparisons l) := rfl

theorem ofChain_or : ofChain done run (comparisons ((.or, e) :: l)) =
    ofChain (some (joinRun done run)) (.equals e.1 e.2) (comparisons l) := rfl

/-- A chain holds if one of the runs before it does, or the latest of these together with the
comparisons up to the next OR, or a segment behind that. -/
theorem holds_ofChain : (ofChain done run (comparisons l)).holds h row = true ↔
    (∃ c ∈ done, c.holds h row = true) ∨
    (run.holds h row = true ∧ AllTrue h row (upToOr l)) ∨
    ∃ segment, IsSegment l segment ∧ AllTrue h row segment := by
  induction l generalizing done run with
  | nil =>
    have hnone : ¬ ∃ segment, IsSegment [] segment ∧ AllTrue h row segment :=
      fun ⟨segment, hsegment, _⟩ => not_isSegment_nil hsegment
    show (joinRun done run).holds h row = true ↔ _
    rw [holds_joinRun, or_iff_left hnone, upToOr_nil, and_iff_left allTrue_nil]
  | cons p l ih =>
    obtain ⟨op, e⟩ := p
    cases op with
    | and =>
      rw [ofChain_and, ih, upToOr_and, holds_and, holds_equals, allTrue_cons, and_assoc]
      simp only [isSegment_and]
    | or =>
      -- the run that ends here joins those before, and the comparison begins the next one
      rw [ofChain_or, ih, upToOr_or, holds_equals, and_iff_left allTrue_nil]
      simp only [isSegment_or, or_and_right, exists_or, exists_eq_left, exists_eq_left',
        allTrue_cons, Option.mem_some_iff, holds_joinRun, or_assoc]

theorem columns_ofChain : (ofChain done run (comparisons l)).columns =
    (joinRun done run).columns ++ l.map fun p => p.2.1 := by
  induction l generalizing done run with
  | nil => exact (List.append_nil _).symm
  | cons p l ih =>
    obtain ⟨op, e⟩ := p
    cases op with
    | and =>
      rw [ofChain_and, ih]
      cases done <;> simp [joinRun, columns]
    | or =>
      rw [ofChain_or, ih]
      simp [joinRun, columns]

end Condition

namespace Statement

open Grammar
open Condition (Connective IsSegment AllTrue comparisons)

variable {first : String × Value} {more : List (Connective × (String × Value))}
  {us vs : List Token.Kind} {ts rest : List Token}

/-- Behind WHERE comparisons that are joined by AND and OR are read up to a token that is neither.
The columns come in the order in which they are written, and the condition holds if all
comparisons of some segment are true; the first segment begins with the first comparison. -/
theorem where_as_written (hfirst : Equation first us) (hmore : Chain (comparisons more) vs)
    (hs : Spells (.keyword .where :: us ++ vs) ts rest) (hclear : Clear connectives rest) :
    ∃ c, optional (.keyword .where) condition ts = .ok (some c, rest) ∧
      (expect (.keyword .where) ts >>= condition) = .ok (c, rest) ∧
      (expect (.keyword .where) ts >>= expression 0) = .ok (c, rest) ∧
      c.columns = first.1 :: more.map (fun p => p.2.1) ∧
      ∀ h row, c.holds h row = true ↔
        ∃ segment, IsSegment ((.or, first) :: more) segment ∧ AllTrue h row segment := by
  obtain ⟨mid, hwhere, hbehind⟩ := spells_cons_iff.1 hs
  have hderived : Disjunction (.ofChain none (.equals first.1 first.2) (comparisons more))
      (us ++ vs) := disjunction_iff.2 ⟨_, _, us, vs, .equation hfirst, hmore, rfl, rfl⟩
  have hread := reads_condition.complete hderived hbehind hclear
  refine ⟨.ofChain none (.equals first.1 first.2) (comparisons more), ?_, ?_, ?_,
    Condition.columns_ofChain, fun h row => ?_⟩
  · simp only [optional, after?_eq_some_iff.2 hwhere, hread]
    rfl
  · simp only [expect_eq_ok_iff.2 hwhere, bind, Except.bind, hread]
  · simp only [expect_eq_ok_iff.2 hwhere, bind, Except.bind, expression_zero, hread]
  · rw [Condition.holds_ofChain, Condition.holds_equals, ← Condition.allTrue_cons]
    simp only [Condition.isSegment_or, or_and_right, exists_or, exists_eq_left]
    simp

/-- Three comparisons, the last two joined, with a limit behind them. -/
theorem where_as_written_or_and :
    let first : String × Value := ("a", .int 1)
    let more : List (Connective × (String × Value)) :=
      [(.or, ("t.b", .text "x")), (.and, ("c", .int 2))]
    let us : List Token.Kind := [.identifier "a", .equal, .number "1"]
    let vs : List Token.Kind := [.keyword .or, .identifier "t.b", .equal, .text "x",
      .keyword .and, .identifier "c", .equal, .number "002"]
    let rest : List Token := [⟨.keyword .limit, ⟨2, 1⟩⟩, ⟨.number "3", ⟨2, 7⟩⟩]
    let ts : List Token := (.keyword .where :: us ++ vs).map (⟨·, .start⟩) ++ rest
    Equation first us ∧ Chain (comparisons more) vs ∧
      Spells (.keyword .where :: us ++ vs) ts rest ∧ Clear connectives rest ∧
      ∃ c, optional (.keyword .where) condition ts = .ok (some c, rest) ∧
        (expect (.keyword .where) ts >>= condition) = .ok (c, rest) ∧
        (expect (.keyword .where) ts >>= expression 0) = .ok (c, rest) ∧
        c.columns = first.1 :: more.map (fun p => p.2.1) ∧
        ∀ h row, c.holds h row = true ↔
          ∃ segment, IsSegment ((.or, first) :: more) segment ∧ AllTrue h row segment := by
  intro first more us vs rest ts
  have hint : ∀ {digits n}, Text.int64? digits = some n → Literal (.int n) [.number digits] :=
    fun h => .int (Text.int64?_eq_some_iff.1 h)
  have hfirst : Equation first us := .mk (hint (by decide))
  have hlast : Equation ("c", .int 2) [.identifier "c", .equal, .number "002"] :=
    .mk (hint (by decide))
  have hmore : Chain (comparisons more) vs :=
    .cons (.equation (.mk .text)) (.cons (.equation hlast) .nil)
  have hs : Spells (.keyword .where :: us ++ vs) ts rest := ⟨_, rfl, rfl⟩
  have hclear : Clear connectives rest := by
    simp [Clear, connectives, rest]
  exact ⟨hfirst, hmore, hs, hclear, where_as_written hfirst hmore hs hclear⟩

end Statement
end RelStore
