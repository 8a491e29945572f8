import RelStore.Value.Map

/-! The index of one column: which primary key belongs to a value of the column. -/
namespace RelStore

structure Index where
  column : String
  entries : ValueMap Value

namespace Index

def empty (column : String) : Index := ⟨column, .empty⟩

instance : Inhabited Index := ⟨empty ""⟩

/-- The primary key under which a row with this value is stored. -/
def key? (ix : Index) (v : Value) : Option Value := ix.entries.get? v

def contains (ix : Index) (v : Value) : Bool := ix.entries.contains v

/-- Records the key of a value, and tells the key recorded before. -/
def set (ix : Index) (v key : Value) : Option Value × Index :=
  (ix.key? v, { ix with entries := ix.entries.insert v key })

def remove (ix : Index) (v : Value) : Option Value × Index :=
  (ix.key? v, { ix with entries := ix.entries.erase v })

def clear (ix : Index) : Index := empty ix.column

def size (ix : Index) : Nat := ix.entries.size

@[simp] theorem key?_empty (column : String) (v : Value) : (empty column).key? v = none := rfl

@[simp] theorem key?_set (ix : Index) (v key w : Value) :
    (ix.set v key).2.key? w = if v = w then some key else ix.key? w :=
  ix.entries.get?_insert v w key

@[simp] theorem key?_remove (ix : Index) (v w : Value) :
    (ix.remove v).2.key? w = if v = w then none else ix.key? w :=
  ix.entries.get?_erase v w

@[simp] theorem column_set (ix : Index) (v key : Value) :
    (ix.set v key).2.column = ix.column := rfl

@[simp] theorem column_remove (ix : Index) (v : Value) :
    (ix.remove v).2.column = ix.column := rfl

end Index
end RelStore
