/-! Words and marks of a query text, with the place where each begins. -/
namespace RelStore

/-- Words that name no table or column. -/
inductive Keyword where
  | select | «from» | «where» | insert | into | values | update | set | delete
  | create | table | primary | key | unique | join | on | int | text | and | or
  | limit | «if» | not | «exists»
deriving DecidableEq, Inhabited

namespace Keyword

def all : List Keyword :=
  [select, «from», «where», insert, into, values, update, set, delete, create, table,
    primary, key, unique, join, on, int, text, and, or, limit, «if», not, «exists»]

theorem mem_all (k : Keyword) : k ∈ all := by cases k <;> decide

def name : Keyword → String
  | select => "SELECT" | «from» => "FROM" | «where» => "WHERE" | insert => "INSERT"
  | into => "INTO" | values => "VALUES" | update => "UPDATE" | set => "SET"
  | delete => "DELETE" | create => "CREATE" | table => "TABLE" | primary => "PRIMARY"
  | key => "KEY" | unique => "UNIQUE" | join => "JOIN" | on => "ON" | int => "INT"
  | text => "TEXT" | and => "AND" | or => "OR" | limit => "LIMIT" | «if» => "IF"
  | not => "NOT" | «exists» => "EXISTS"

def word : Keyword → String
  | select => "select" | «from» => "from" | «where» => "where" | insert => "insert"
  | into => "into" | values => "values" | update => "update" | set => "set"
  | delete => "delete" | create => "create" | table => "table" | primary => "primary"
  | key => "key" | unique => "unique" | join => "join" | on => "on" | int => "int"
  | text => "text" | and => "and" | or => "or" | limit => "limit" | «if» => "if"
  | not => "not" | «exists» => "exists"

def ofWord? (w : String) : Option Keyword :=
  let small := String.ofList (w.toList.map Char.toLower)
  all.find? (fun k => k.word == small)

end Keyword

namespace Token

/-- What a token is. A number is its digits, a text the characters between its quotes. -/
inductive Kind where
  | keyword (k : Keyword)
  | number (digits : String)
  | text (s : String)
  | identifier (name : String)
  | equal
  | star
  | comma
  | leftParen
  | rightParen
  | illegal (c : Char)
  | endOfInput
deriving DecidableEq, Inhabited

def Kind.describe : Kind → String
  | keyword k => k.name
  | number digits => "number " ++ digits
  | text s => "string '" ++ s ++ "'"
  | identifier name => "identifier " ++ name
  | equal => "'='"
  | star => "'*'"
  | comma => "','"
  | leftParen => "'('"
  | rightParen => "')'"
  | illegal c => "illegal character '" ++ c.toString ++ "'"
  | endOfInput => "end of input"

/-- A place in a text: lines and columns are counted from one, a column per character. -/
structure Position where
  line : Nat
  column : Nat
deriving DecidableEq, Inhabited

namespace Position

def start : Position := ⟨1, 1⟩

def after (p : Position) (c : Char) : Position :=
  if c = '\n' then ⟨p.line + 1, 1⟩ else ⟨p.line, p.column + 1⟩

def afterAll (p : Position) (cs : List Char) : Position := cs.foldl after p

@[simp] theorem afterAll_nil (p : Position) : p.afterAll [] = p := rfl

@[simp] theorem afterAll_cons (p : Position) (c : Char) (cs : List Char) :
    p.afterAll (c :: cs) = (p.after c).afterAll cs := rfl

end Position
end Token

structure Token where
  kind : Token.Kind
  position : Token.Position
deriving DecidableEq, Inhabited

end RelStore
