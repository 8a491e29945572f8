import RelStore.Statement
import RelStore.Text.Decimal
import RelStore.Token.Scan

/-! From tokens to statements. A reader takes what it reads from the front of a list of
tokens and leaves the rest; where it cannot go on it names what it expected there. -/
namespace RelStore
namespace Statement

/-- Where reading stopped: what was expected, and the tokens that were left. -/
structure Stuck where
  expected : Expectation
  rest : List Token
deriving DecidableEq

abbrev Reader (α : Type) := List Token → Except Stuck (α × List Token)

def after? (k : Token.Kind) : List Token → Option (List Token)
  | t :: ts => if t.kind = k then some ts else none
  | [] => none

/-- The tokens behind one of the given kind, which has to come first. -/
def expect (k : Token.Kind) (ts : List Token) : Except Stuck (List Token) :=
  match after? k ts with
  | some rest => .ok rest
  | none => .error ⟨.token k, ts⟩

def identifier : Reader String
  | ⟨.identifier name, _⟩ :: ts => .ok (name, ts)
  | ts => .error ⟨.identifier, ts⟩

def literal : Reader Value
  | ⟨.number digits, p⟩ :: ts =>
    match Text.int64? digits with
    | some n => .ok (.int n, ts)
    | none => .error ⟨.integerInRange digits, ⟨.number digits, p⟩ :: ts⟩
  | ⟨.text s, _⟩ :: ts => .ok (.text s, ts)
  | ts => .error ⟨.literal, ts⟩

def limit : Reader Nat
  | ⟨.number digits, p⟩ :: ts =>
    match Text.nat64? digits with
    | some n => .ok (n, ts)
    | none => .error ⟨.limitInRange digits, ⟨.number digits, p⟩ :: ts⟩
  | ts => .error ⟨.number, ts⟩

/-- At most `fuel` items with commas between them, behind the items of `done`. What an
item may be can depend on the items before it. -/
def itemsFrom {α : Type} (item : List α → Reader α) : Nat → List α → Reader (List α)
  | 0, done, ts => .ok (done, ts)
  | fuel + 1, done, ts => do
    let (x, ts) ← item done ts
    match after? .comma ts with
    | some rest => itemsFrom item fuel (done ++ [x]) rest
    | none => pure (done ++ [x], ts)

/-- One or more items with commas between them. Each item takes a token at least, so
that there are no more items than tokens. -/
def items {α : Type} (item : List α → Reader α) : Reader (List α) := fun ts =>
  itemsFrom item (ts.length + 1) [] ts

def names : Reader (List String) := items fun _ => identifier

def literals : Reader (List Value) := items fun _ => literal

/-- `column = literal`, for a column other than those of `seen`. -/
def equation (seen : List String) : Reader (String × Value) := fun ts => do
  let (column, ts) ← identifier ts
  if column ∈ seen then throw ⟨.unassigned column, ts⟩
  let ts ← expect .equal ts
  let (value, ts) ← literal ts
  pure ((column, value), ts)

def assignments : Reader (List (String × Value)) :=
  items fun done => equation (done.map (·.1))

def connective? : List Token → Option (Condition.Connective × List Token)
  | ⟨.keyword .and, _⟩ :: ts => some (.and, ts)
  | ⟨.keyword .or, _⟩ :: ts => some (.or, ts)
  | _ => none

/-- At most `fuel` further equations of a chain, each with what joins it to the chain. -/
def chainFrom : Nat → Reader (List (Condition.Connective × Condition))
  | 0, ts => .ok ([], ts)
  | fuel + 1, ts =>
    match connective? ts with
    | none => .ok ([], ts)
    | some (op, ts) => do
      let ((column, value), ts) ← equation [] ts
      let (rest, ts) ← chainFrom fuel ts
      pure ((op, .equals column value) :: rest, ts)

def condition : Reader Condition := fun ts => do
  let ((column, value), ts) ← equation [] ts
  let (rest, ts) ← chainFrom ts.length ts
  pure (.ofChain none (.equals column value) rest, ts)

def dataType : Reader ColumnType
  | ⟨.keyword .int, _⟩ :: ts => .ok (.int, ts)
  | ⟨.keyword .text, _⟩ :: ts => .ok (.text, ts)
  | ts => .error ⟨.dataType, ts⟩

/-- A name and a type, and PRIMARY KEY or UNIQUE behind it. -/
def column : Reader Column := fun ts => do
  let (name, ts) ← identifier ts
  let (type, ts) ← dataType ts
  match after? (.keyword .primary) ts with
  | some ts =>
    let ts ← expect (.keyword .key) ts
    pure ({ Column.plain name type with isPrimary := true }, ts)
  | none =>
    match after? (.keyword .unique) ts with
    | some ts => pure ({ Column.plain name type with isUnique := true }, ts)
    | none => pure (Column.plain name type, ts)

def columns : Reader (List Column) := items fun _ => column

/-- A part that is there if its first token is. -/
def optional {α : Type} (k : Token.Kind) (part : Reader α) : Reader (Option α) := fun ts =>
  match after? k ts with
  | some rest => do
    let (x, rest) ← part rest
    pure (some x, rest)
  | none => .ok (none, ts)

def selection : Reader Selection := fun ts =>
  match after? .star ts with
  | some rest => .ok (.all, rest)
  | none => do
    let (columns, rest) ← names ts
    pure (.named columns, rest)

def join : Reader Join := fun ts => do
  let (table, ts) ← identifier ts
  let ts ← expect (.keyword .on) ts
  let (left, ts) ← identifier ts
  let ts ← expect .equal ts
  let (right, ts) ← identifier ts
  pure (⟨table, left, right⟩, ts)

def selectBody : Reader Statement := fun ts => do
  let (chosen, ts) ← selection ts
  let ts ← expect (.keyword .from) ts
  let (table, ts) ← identifier ts
  let (joined, ts) ← optional (.keyword .join) join ts
  let (cond, ts) ← optional (.keyword .where) condition ts
  let (most, ts) ← optional (.keyword .limit) limit ts
  pure (.select ⟨chosen, table, joined, cond, most⟩, ts)

def insertBody : Reader Statement := fun ts => do
  let ts ← expect (.keyword .into) ts
  let (table, ts) ← identifier ts
  let ts ← expect (.keyword .values) ts
  let ts ← expect .leftParen ts
  let (row, ts) ← literals ts
  let ts ← expect .rightParen ts
  pure (.insert table row, ts)

def updateBody : Reader Statement := fun ts => do
  let (table, ts) ← identifier ts
  let ts ← expect (.keyword .set) ts
  let (changes, ts) ← assignments ts
  let ts ← expect (.keyword .where) ts
  let (cond, ts) ← condition ts
  pure (.update table changes cond, ts)

def deleteBody : Reader Statement := fun ts => do
  let ts ← expect (.keyword .from) ts
  let (table, ts) ← identifier ts
  let ts ← expect (.keyword .where) ts
  let (cond, ts) ← condition ts
  pure (.delete table cond, ts)

def createBody : Reader Statement := fun ts => do
  let ts ← expect (.keyword .table) ts
  let (clause, ts) ← optional (.keyword .if) (fun ts => do
    let ts ← expect (.keyword .not) ts
    let ts ← expect (.keyword .exists) ts
    pure ((), ts)) ts
  let (table, ts) ← identifier ts
  let ts ← expect .leftParen ts
  let (cols, ts) ← columns ts
  let ts ← expect .rightParen ts
  pure (.create table cols clause.isSome, ts)

def statement : Reader Statement
  | ⟨.keyword .select, _⟩ :: ts => selectBody ts
  | ⟨.keyword .insert, _⟩ :: ts => insertBody ts
  | ⟨.keyword .update, _⟩ :: ts => updateBody ts
  | ⟨.keyword .delete, _⟩ :: ts => deleteBody ts
  | ⟨.keyword .create, _⟩ :: ts => createBody ts
  | ts => .error ⟨.statement, ts⟩

def whole (ts : List Token) : Except Stuck Statement := do
  let (s, rest) ← statement ts
  if rest.isEmpty then pure s else throw ⟨.endOfInput, rest⟩

def proper (ts : List Token) : List Token := ts.takeWhile (fun t => t.kind != .endOfInput)

/-- The end of input of a list of tokens: the first token of that kind, or else one at
the place of the last token. -/
def ending (ts : List Token) : Token :=
  match ts.find? (fun t => t.kind == .endOfInput) with
  | some t => t
  | none => ⟨.endOfInput, (ts.getLast?.map (·.position)).getD .start⟩

def ofTokens (ts : List Token) : Except Error Statement :=
  match whole (proper ts) with
  | .ok s => .ok s
  | .error stuck => .error (.misread ⟨stuck.expected, stuck.rest.headD (ending ts)⟩)

def parse (text : String) : Except Error Statement := ofTokens (Token.scan text)

end Statement
end RelStore
