import RelStore.Proofs.Text.Decimal
import RelStore.Statement
import RelStore.Token

/-! The grammar of statements. A rule says which kinds of tokens, in a row, stand for what;
statements are what the rules derive, with nothing said about how they are found. -/
namespace RelStore
namespace Grammar

abbrev Rule (α : Type) := α → List Token.Kind → Prop

inductive Name : Rule String
  | identifier {name} : Name name [.identifier name]

inductive Literal : Rule Value
  | int {digits n} (h : Text.IsInteger digits.toList n.toInt) : Literal (.int n) [.number digits]
  | text {s} : Literal (.text s) [.text s]

/-- The number of a limit, below 2 ^ 64. -/
inductive Count : Rule Nat
  | number {digits n} (h : Text.IsNatural digits.toList n) (hn : n < UInt64.size) :
    Count n [.number digits]

/-- One or more items with commas between them. -/
inductive Series {α : Type} (item : Rule α) : Rule (List α)
  | one {x us} (h : item x us) : Series item [x] us
  | more {x us xs vs} (h : item x us) (hs : Series item xs vs) :
    Series item (x :: xs) (us ++ .comma :: vs)

/-- A part that may be missing; `k` tells that it is there. -/
inductive Optional {α : Type} (k : Token.Kind) (part : Rule α) : Rule (Option α)
  | absent : Optional k part none []
  | present {x us} (h : part x us) : Optional k part (some x) (k :: us)

/-- `column = literal` -/
inductive Equation : Rule (String × Value)
  | mk {column value us} (h : Literal value us) :
    Equation (column, value) (.identifier column :: .equal :: us)

inductive Comparison : Rule Condition
  | equation {column value us} (h : Equation (column, value) us) :
    Comparison (.equals column value) us

/-- Comparisons joined by AND, grouped to the left. -/
inductive Conjunction : Rule Condition
  | one {c us} (h : Comparison c us) : Conjunction c us
  | and {l us r vs} (hl : Conjunction l us) (hr : Comparison r vs) :
    Conjunction (.and l r) (us ++ .keyword .and :: vs)

/-- Conjunctions joined by OR, grouped to the left. -/
inductive Disjunction : Rule Condition
  | one {c us} (h : Conjunction c us) : Disjunction c us
  | or {l us r vs} (hl : Disjunction l us) (hr : Conjunction r vs) :
    Disjunction (.or l r) (us ++ .keyword .or :: vs)

inductive DataType : Rule ColumnType
  | int : DataType .int [.keyword .int]
  | text : DataType .text [.keyword .text]

/-- A name and a type, and behind them PRIMARY KEY or UNIQUE or neither. -/
inductive ColumnEntry : Rule Column
  | plain {name type us} (h : DataType type us) :
    ColumnEntry ⟨name, type, false, false⟩ (.identifier name :: us)
  | primary {name type us} (h : DataType type us) :
    ColumnEntry ⟨name, type, true, false⟩
      (.identifier name :: us ++ [.keyword .primary, .keyword .key])
  | unique {name type us} (h : DataType type us) :
    ColumnEntry ⟨name, type, false, true⟩ (.identifier name :: us ++ [.keyword .unique])

inductive Choice : Rule Selection
  | all : Choice .all [.star]
  | named {names us} (h : Series Name names us) : Choice (.named names) us

inductive Joined : Rule Join
  | mk {table left right} : Joined ⟨table, left, right⟩
      [.identifier table, .keyword .on, .identifier left, .equal, .identifier right]

inductive Absence : Rule Unit
  | mk : Absence () [.keyword .not, .keyword .exists]

/-- A statement and the kinds of its tokens. -/
inductive Derives : Rule Statement
  | select {chosen us table joined vs condition ws most xs}
    (hu : Choice chosen us) (hv : Optional (.keyword .join) Joined joined vs)
    (hw : Optional (.keyword .where) Disjunction condition ws)
    (hx : Optional (.keyword .limit) Count most xs) :
    Derives (.select ⟨chosen, table, joined, condition, most⟩)
      (.keyword .select :: us ++ .keyword .from :: .identifier table :: vs ++ ws ++ xs)
  | insert {table row us} (hu : Series Literal row us) :
    Derives (.insert table row)
      (.keyword .insert :: .keyword .into :: .identifier table :: .keyword .values ::
        .leftParen :: us ++ [.rightParen])
  | update {table changes us condition vs} (hu : Series Equation changes us)
    (hd : (changes.map Prod.fst).Nodup) (hv : Disjunction condition vs) :
    Derives (.update table changes condition)
      (.keyword .update :: .identifier table :: .keyword .set :: us ++ .keyword .where :: vs)
  | delete {table condition us} (hu : Disjunction condition us) :
    Derives (.delete table condition)
      (.keyword .delete :: .keyword .from :: .identifier table :: .keyword .where :: us)
  | create {absence us table columns vs} (hu : Optional (.keyword .if) Absence absence us)
    (hv : Series ColumnEntry columns vs) :
    Derives (.create table columns absence.isSome)
      (.keyword .create :: .keyword .table :: us ++ .identifier table :: .leftParen :: vs ++
        [.rightParen])

end Grammar
end RelStore
