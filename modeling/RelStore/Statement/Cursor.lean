import RelStore.Statement.Parse

/-! Statements read by position. The tokens stay where they are, and a reader goes from one
position to another. It looks at the token of its position only, and a position that has
none is a fault. -/
namespace RelStore
namespace Statement

def closed (ts : List Token) : List Token :=
  if ts.getLast?.any fun t => t.kind == .endOfInput then ts
  else ts ++ [⟨.endOfInput, (ts.getLast?.map (·.position)).getD .start⟩]

namespace Cursor

abbrev Reader (α : Type) := Nat → Except Error (α × Nat)

variable (ts : List Token) {α : Type}

def current (p : Nat) : Except Error Token :=
  match ts[p]? with
  | some t => .ok t
  | none => .error (.outOfRange p ts.length)

def advance (p : Nat) : Nat := if p < ts.length - 1 then p + 1 else p

def fail (p : Nat) (x : Expectation) : Except Error α := do
  let t ← current ts p
  throw (.misread ⟨x, t⟩)

def after? (k : Token.Kind) (p : Nat) : Except Error (Option Nat) := do
  let t ← current ts p
  pure (if t.kind = k then some (advance ts p) else none)

/-- The position behind a token of the given kind, which has to be there. -/
def expect (k : Token.Kind) (p : Nat) : Except Error Nat := do
  match ← after? ts k p with
  | some p => pure p
  | none => fail ts p (.token k)

def one (f : Token.Kind → Except Expectation α) : Reader α := fun p => do
  let t ← current ts p
  match f t.kind with
  | .ok x => pure (x, advance ts p)
  | .error x => fail ts p x

def identifier : Reader String := one ts fun
  | .identifier name => .ok name
  | _ => .error .identifier

def literal : Reader Value := one ts fun
  | .number digits =>
    match Text.int64? digits with
    | some n => .ok (.int n)
    | none => .error (.integerInRange digits)
  | .text s => .ok (.text s)
  | _ => .error .literal

def limit : Reader Nat := one ts fun
  | .number digits =>
    match Text.nat64? digits with
    | some n => .ok n
    | none => .error (.limitInRange digits)
  | _ => .error .number

def dataType : Reader ColumnType := one ts fun
  | .keyword .int => .ok .int
  | .keyword .text => .ok .text
  | _ => .error .dataType

/-- At most `fuel` items with commas between them, behind the items of `done`. -/
def itemsFrom (item : List α → Reader α) : Nat → List α → Reader (List α)
  | 0, done, p => .ok (done, p)
  | fuel + 1, done, p => do
    let (x, p) ← item done p
    match ← after? ts .comma p with
    | some p => itemsFrom item fuel (done ++ [x]) p
    | none => pure (done ++ [x], p)

/-- One or more items with commas between them. There are not as many items as tokens, as
the last token is in none of them. -/
def items (item : List α → Reader α) : Reader (List α) := itemsFrom ts item ts.length []

/-- `column = literal`, for a column other than those of `seen`. -/
def equation (seen : List String) : Reader (String × Value) := fun p => do
  let (column, p) ← identifier ts p
  if column ∈ seen then fail ts p (.unassigned column)
  let p ← expect ts .equal p
  let (value, p) ← literal ts p
  pure ((column, value), p)

def connective? (p : Nat) : Except Error (Option (Condition.Connective × Nat)) := do
  let t ← current ts p
  match t.kind with
  | .keyword .and => pure (some (.and, advance ts p))
  | .keyword .or => pure (some (.or, advance ts p))
  | _ => pure none

/-- At most `fuel` further equations of a chain, each with what joins it to the chain. -/
def chainFrom : Nat → Reader (List (Condition.Connective × Condition))
  | 0, p => .ok ([], p)
  | fuel + 1, p => do
    match ← connective? ts p with
    | none => pure ([], p)
    | some (op, p) =>
      let ((column, value), p) ← equation ts [] p
      let (rest, p) ← chainFrom fuel p
      pure ((op, .equals column value) :: rest, p)

def condition : Reader Condition := fun p => do
  let ((column, value), p) ← equation ts [] p
  let (rest, p) ← chainFrom ts ts.length p
  pure (.ofChain none (.equals column value) rest, p)

/-- A name and a type, and PRIMARY KEY or UNIQUE behind it. -/
def column : Reader Column := fun p => do
  let (name, p) ← identifier ts p
  let (type, p) ← dataType ts p
  match ← after? ts (.keyword .primary) p with
  | some p =>
    let p ← expect ts (.keyword .key) p
    pure ({ Column.plain name type with isPrimary := true }, p)
  | none =>
    match ← after? ts (.keyword .unique) p with
    | some p => pure ({ Column.plain name type with isUnique := true }, p)
    | none => pure (Column.plain name type, p)

/-- A part that is there if its first token is. -/
def optional (k : Token.Kind) (part : Reader α) : Reader (Option α) := fun p => do
  match ← after? ts k p with
  | some p =>
    let (x, p) ← part p
    pure (some x, p)
  | none => pure (none, p)

def selection : Reader Selection := fun p => do
  match ← after? ts .star p with
  | some p => pure (.all, p)
  | none =>
    let (columns, p) ← items ts (fun _ => identifier ts) p
    pure (.named columns, p)

def join : Reader Join := fun p => do
  let (table, p) ← identifier ts p
  let p ← expect ts (.keyword .on) p
  let (left, p) ← identifier ts p
  let p ← expect ts .equal p
  let (right, p) ← identifier ts p
  pure (⟨table, left, right⟩, p)

def selectBody : Reader Statement := fun p => do
  let (chosen, p) ← selection ts p
  let p ← expect ts (.keyword .from) p
  let (table, p) ← identifier ts p
  let (joined, p) ← optional ts (.keyword .join) (join ts) p
  let (cond, p) ← optional ts (.keyword .where) (condition ts) p
  let (most, p) ← optional ts (.keyword .limit) (limit ts) p
  pure (.select ⟨chosen, table, joined, cond, most⟩, p)

def insertBody : Reader Statement := fun p => do
  let p ← expect ts (.keyword .into) p
  let (table, p) ← identifier ts p
  let p ← expect ts (.keyword .values) p
  let p ← expect ts .leftParen p
  let (row, p) ← items ts (fun _ => literal ts) p
  let p ← expect ts .rightParen p
  pure (.insert table row, p)

def updateBody : Reader Statement := fun p => do
  let (table, p) ← identifier ts p
  let p ← expect ts (.keyword .set) p
  let (changes, p) ← items ts (fun done => equation ts (done.map (·.1))) p
  let p ← expect ts (.keyword .where) p
  let (cond, p) ← condition ts p
  pure (.update table changes cond, p)

def deleteBody : Reader Statement := fun p => do
  let p ← expect ts (.keyword .from) p
  let (table, p) ← identifier ts p
  let p ← expect ts (.keyword .where) p
  let (cond, p) ← condition ts p
  pure (.delete table cond, p)

def absence : Reader Unit := fun p => do
  let p ← expect ts (.keyword .not) p
  let p ← expect ts (.keyword .exists) p
  pure ((), p)

def createBody : Reader Statement := fun p => do
  let p ← expect ts (.keyword .table) p
  let (clause, p) ← optional ts (.keyword .if) (absence ts) p
  let (table, p) ← identifier ts p
  let p ← expect ts .leftParen p
  let (cols, p) ← items ts (fun _ => column ts) p
  let p ← expect ts .rightParen p
  pure (.create table cols clause.isSome, p)

/-- A statement, by the word it begins with. -/
def statement : Reader Statement := fun p => do
  let t ← current ts p
  match t.kind with
  | .keyword .select => selectBody ts (advance ts p)
  | .keyword .insert => insertBody ts (advance ts p)
  | .keyword .update => updateBody ts (advance ts p)
  | .keyword .delete => deleteBody ts (advance ts p)
  | .keyword .create => createBody ts (advance ts p)
  | _ => fail ts p .statement

def whole : Except Error Statement := do
  let (s, p) ← statement ts 0
  let t ← current ts p
  if t.kind = .endOfInput then pure s else fail ts p .endOfInput

end Cursor

/-- The statement that a list of tokens is, read by position. -/
def atPositions (ts : List Token) : Except Error Statement := Cursor.whole (closed ts)

end Statement
end RelStore
