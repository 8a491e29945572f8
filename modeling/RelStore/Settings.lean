import RelStore.Json.Decode
import RelStore.Json.Read
import RelStore.Json.Write

/-! Where tables are kept, and how hard a save tries to reach the disk. -/
namespace RelStore

/-- Whether a save waits until the device has what it wrote. -/
inductive Durability where
  | synchronous
  | noSync
deriving DecidableEq, Inhabited

namespace Durability

def name : Durability → String
  | synchronous => "Synchronous"
  | noSync => "NoSync"

def description : Durability → String
  | synchronous => "synchronous (fsync file and directory)"
  | noSync => "no sync (testing only)"

def requiresSync : Durability → Bool
  | synchronous => true
  | noSync => false

def toJson (d : Durability) : Json := .string d.name

def ofJson? (x : Json) : Option Durability := do
  let name ← x.choice?
  if name == "Synchronous" then some synchronous
  else if name == "NoSync" then some noSync
  else none

end Durability

structure Settings where
  directory : String
  durability : Durability
deriving DecidableEq

/-- A path below a directory. An absolute path stands for itself, and below no directory
a path stays as it is. -/
def joinPath (directory path : String) : String :=
  if path.startsWith "/" || directory.isEmpty then path
  else if directory.endsWith "/" then directory ++ path
  else directory ++ "/" ++ path

/-- The file of a table, below its directory. -/
def tableFile (name : String) : String := name ++ ".json"

namespace Settings

instance : Inhabited Settings := ⟨⟨"data", .synchronous⟩⟩

/-- Tables in a directory, saved synchronously. -/
def ofDirectory (directory : String) : Settings := { (default : Settings) with directory }

def forTesting (directory : String) : Settings := ⟨directory, .noSync⟩

def tablePath (s : Settings) (name : String) : String := joinPath s.directory (tableFile name)

def toJson (s : Settings) : Json :=
  .object [("data_dir", .string s.directory), ("durability", s.durability.toJson)]

def ofJson? (x : Json) : Option Settings :=
  match x.fields? ["data_dir", "durability"] with
  | some [directory, durability] => do
    let directory ← Json.required? Json.string? directory
    let durability ← Json.required? Durability.ofJson? durability
    pure ⟨directory, durability⟩
  | _ => none

end Settings
end RelStore
