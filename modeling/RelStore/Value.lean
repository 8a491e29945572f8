import RelStore.Text.Order

/-! Cells of a table: 64-bit integers and texts, their types and their order.
`Value.lt` orders every pair of values, integers before texts; `Value.order?`
is the comparison a query sees, which two types do not share. -/
namespace RelStore

/-- What a column holds. -/
inductive ColumnType where
  | int
  | text
deriving DecidableEq, Repr, Inhabited

namespace ColumnType

def name : ColumnType → String
  | int => "INT"
  | text => "TEXT"

end ColumnType

/-- One cell. -/
inductive Value where
  | int (n : Int64)
  | text (s : String)
deriving DecidableEq, Inhabited

abbrev Row := List Value

namespace Value

def type : Value → ColumnType
  | int _ => .int
  | text _ => .text

/-- The text of a value: integers in decimal, texts as they are. -/
def display : Value → String
  | int n => toString n.toInt
  | text s => s

def asInt? : Value → Option Int64
  | int n => some n
  | text _ => none

def asText? : Value → Option String
  | int _ => none
  | text s => some s

protected def lt : Value → Value → Prop
  | int a, int b => a < b
  | int _, text _ => True
  | text _, int _ => False
  | text a, text b => Text.before a b = true

instance : LT Value := ⟨Value.lt⟩

instance decidableLt : (a b : Value) → Decidable (a < b)
  | int a, int b => inferInstanceAs (Decidable (a < b))
  | int _, text _ => inferInstanceAs (Decidable True)
  | text _, int _ => inferInstanceAs (Decidable False)
  | text a, text b => inferInstanceAs (Decidable (Text.before a b = true))

@[simp] theorem int_lt_int {a b : Int64} : int a < int b ↔ a < b := Iff.rfl
@[simp] theorem int_lt_text {a : Int64} {b : String} : int a < text b := trivial
@[simp] theorem not_text_lt_int {a : String} {b : Int64} : ¬ text a < int b := id
@[simp] theorem text_lt_text {a b : String} :
    text a < text b ↔ Text.before a b = true := Iff.rfl

protected theorem lt_irrefl (a : Value) : ¬ a < a := by
  cases a with
  | int n => exact Int64.lt_irrefl
  | text s => simp [Text.before_irrefl]

protected theorem lt_trans {a b c : Value} (h : a < b) (h' : b < c) : a < c := by
  cases a <;> cases b <;> cases c <;> simp at h h' ⊢
  · exact Int64.lt_trans h h'
  · exact Text.before_trans h h'

protected theorem lt_asymm {a b : Value} (h : a < b) : ¬ b < a :=
  fun h' => Value.lt_irrefl a (Value.lt_trans h h')

protected theorem ne_of_lt {a b : Value} (h : a < b) : a ≠ b := by
  rintro rfl; exact Value.lt_irrefl a h

/-- Two values neither of which is below the other are the same. -/
protected theorem eq_of_not_lt {a b : Value} (h : ¬ a < b) (h' : ¬ b < a) : a = b := by
  cases a with
  | int m => cases b with
    | int n =>
      simp only [int_lt_int, Int64.lt_iff_toInt_lt] at h h'
      rw [Int64.toInt_inj.1 (by omega : m.toInt = n.toInt)]
    | text t => simp at h
  | text s => cases b with
    | int n => simp at h'
    | text t =>
      have hst : s = t := Text.eq_of_not_before (by simpa using h) (by simpa using h')
      rw [hst]

def order? (a b : Value) : Option Ordering :=
  if a.type = b.type then
    some (if a < b then .lt else if a = b then .eq else .gt)
  else none

def sqlEq (a b : Value) : Bool := a.order? b == some .eq

theorem sqlEq_iff {a b : Value} : a.sqlEq b = true ↔ a = b := by
  unfold sqlEq order?
  constructor
  · intro h
    split at h
    · split at h
      · simp at h
      · split at h
        · assumption
        · simp at h
    · simp at h
  · rintro rfl
    simp [Value.lt_irrefl]

end Value
end RelStore
