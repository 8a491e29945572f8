import RelStore.Json

/-! Values of other types from JSON. A record is an object, in which other members than
its fields are passed over, or an array with the fields in order. -/
namespace RelStore.Json

def bool? : Json → Option Bool
  | bool b => some b
  | _ => none

def string? : Json → Option String
  | string s => some s
  | _ => none

def all? {α : Type} (f : Json → Option α) : List Json → Option (List α)
  | [] => some []
  | x :: rest => do
    let y ← f x
    let ys ← all? f rest
    pure (y :: ys)

def list? {α : Type} (f : Json → Option α) : Json → Option (List α)
  | array items => all? f items
  | _ => none

/-- The member of a name, if there is one; there must not be two. -/
def member? (members : List (String × Json)) (name : String) : Option (Option Json) :=
  match members.filter (fun m => m.1 == name) with
  | [] => some none
  | [m] => some (some m.2)
  | _ => none

def members? (members : List (String × Json)) : List String → Option (List (Option Json))
  | [] => some []
  | name :: rest => do
    let x ← member? members name
    let xs ← members? members rest
    pure (x :: xs)

/-- The fields of a record, in the order of their names. -/
def fields? (names : List String) : Json → Option (List (Option Json))
  | object members => members? members names
  | array items =>
    if items.length ≤ names.length then
      some (items.map some ++ List.replicate (names.length - items.length) none)
    else none
  | _ => none

def required? {α : Type} (f : Json → Option α) (x : Option Json) : Option α := x.bind f

def defaulted? {α : Type} (f : Json → Option α) (x : Option Json) (default : α) : Option α :=
  match x with
  | some x => f x
  | none => some default

/-- One of several names: a text, or an object whose only member has the name and is null. -/
def choice? : Json → Option String
  | string s => some s
  | object [(name, null)] => some name
  | _ => none

end RelStore.Json
