import RelStore.Disk
import RelStore.Text.Names

/-! Single files and folders as others see them who use the directory directly: without a
file beside it, and with no regard to what the files hold. -/
namespace RelStore
namespace Disk

def read? (d : Disk) (file : String) : Option (List UInt8) :=
  match d.find file with
  | .node (.file bytes) => some bytes
  | _ => none

/-- Puts content into a file, which is made if its folder is there. -/
def write? (d : Disk) (file : String) (bytes : List UInt8) : Option Disk := do
  let p ← d.placeOf? file
  if d.node? p = some .folder then none else some (d.put p (.file bytes))

def delete? (d : Disk) (file : String) : Option Disk := do
  let p ← d.placeOf? file
  match d.node? p with
  | some (.file _) => some (d.remove p)
  | _ => none

def trimSlashes (file : String) : String :=
  String.ofList (file.toList.reverse.dropWhile (· == '/')).reverse

def makeFolder? (d : Disk) (file : String) : Option Disk := do
  let p ← d.placeOf? (trimSlashes file)
  if d.node? p = none then some (d.put p .folder) else none

/-- The names in the directory, in order. -/
def entries? (d : Disk) : Option (List String) :=
  match d.node? [] with
  | some .folder => some (Text.sortNames d.names)
  | _ => none

end Disk
end RelStore
