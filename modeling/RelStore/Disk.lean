/-! The directory of the tables as a value: which file or folder is found at each path
below it, and at the empty path the directory itself. -/
namespace RelStore

inductive Node where
  | file (bytes : List UInt8)
  | folder
deriving DecidableEq, Inhabited

abbrev Path := List String

structure Disk where
  nodes : List (Path × Node)
deriving DecidableEq, Inhabited

namespace Disk

def empty : Disk := ⟨[([], .folder)]⟩

def missing : Disk := ⟨[]⟩

def blocked : Disk := ⟨[([], .file [])]⟩

def node? (d : Disk) (p : Path) : Option Node := d.nodes.lookup p

def putNode (p : Path) (n : Node) : List (Path × Node) → List (Path × Node)
  | [] => [(p, n)]
  | (q, m) :: rest => if q = p then (p, n) :: rest else (q, m) :: putNode p n rest

def put (d : Disk) (p : Path) (n : Node) : Disk := ⟨putNode p n d.nodes⟩

def remove (d : Disk) (p : Path) : Disk := ⟨d.nodes.filter (fun e => e.1 ≠ p)⟩

theorem lookup_cons (p q : Path) (n : Node) (l : List (Path × Node)) :
    ((p, n) :: l).lookup q = if q = p then some n else l.lookup q := by
  by_cases h : q = p
  · simp [h]
  · have hb : (q == p) = false := by simpa using h
    simp [List.lookup_cons, h, hb]

theorem lookup_putNode (p q : Path) (n : Node) (l : List (Path × Node)) :
    (putNode p n l).lookup q = if q = p then some n else l.lookup q := by
  induction l with
  | nil => simp [putNode, lookup_cons]
  | cons e rest ih =>
    obtain ⟨r, m⟩ := e
    simp only [putNode]
    split
    · rename_i h; subst h
      simp only [lookup_cons]
      split <;> rfl
    · rename_i hr
      simp only [lookup_cons, ih]
      split
      · rename_i h; subst h; simp [hr]
      · rfl

theorem node?_put (d : Disk) (p q : Path) (n : Node) :
    (d.put p n).node? q = if q = p then some n else d.node? q :=
  lookup_putNode p q n d.nodes

theorem node?_remove (d : Disk) (p q : Path) :
    (d.remove p).node? q = if q = p then none else d.node? q := by
  obtain ⟨l⟩ := d
  simp only [node?, remove]
  induction l with
  | nil => simp
  | cons e rest ih =>
    obtain ⟨r, m⟩ := e
    rw [List.filter_cons]
    by_cases hr : r = p
    · subst hr
      simp only [ne_eq, not_true, decide_false, Bool.false_eq_true, ↓reduceIte, ih, lookup_cons]
      split <;> simp_all
    · simp only [ne_eq, hr, not_false_eq_true, decide_true, ↓reduceIte, lookup_cons, ih]
      by_cases h : q = r
      · subst h; simp [hr]
      · simp [h]

/-- What a path leads to. -/
inductive Found where
  | node (n : Node)
  | missing
  /-- the way goes through a file, or a name on it is too long -/
  | refused
deriving DecidableEq

/-- Whether a name is short enough for a file or a folder. -/
def fits (c : String) : Bool := c.utf8ByteSize ≤ 255

/-- The folder that a component of a path leads to from another folder. An empty
component and a dot stay there, two dots lead back; there is no way out of the directory,
and none under a name that is too long. -/
def enter? (folder : Path) (c : String) : Option Path :=
  if c = "" ∨ c = "." then some folder
  else if c ≠ ".." then
    if fits c then some (folder ++ [c]) else none
  else if folder = [] then none
  else some folder.dropLast

def follow (d : Disk) (folder : Path) : Path → Found
  | [] =>
    match d.node? folder with
    | some n => .node n
    | none => .missing
  | c :: rest =>
    match d.node? folder, enter? folder c with
    | some .folder, some next => d.follow next rest
    | some .folder, none => if fits c then .missing else .refused
    | some (.file _), _ => .refused
    | none, _ => .missing

def isEntry (c : String) : Bool := c != "" && c != "." && c != ".." && fits c

/-- Where the last component of a path is or can be put, if the way there leads through
folders. -/
def place? (d : Disk) (folder : Path) : Path → Option Path
  | [] => none
  | [c] => if d.node? folder = some .folder ∧ isEntry c then some (folder ++ [c]) else none
  | c :: rest =>
    match d.node? folder, enter? folder c with
    | some .folder, some next => d.place? next rest
    | _, _ => none

def components (file : String) : Path := (file.toList.splitOn '/').map String.ofList

def isIllegal (file : String) : Bool := file.toList.any (fun c => c.toNat == 0)

def isAbsolute (file : String) : Bool := file.startsWith "/"

/-- What a file name leads to. Outside the directory nothing is known. -/
def find (d : Disk) (file : String) : Found :=
  if isIllegal file then .refused
  else if isAbsolute file then .missing
  else d.follow [] (components file)

def placeOf? (d : Disk) (file : String) : Option Path :=
  if isIllegal file || isAbsolute file then none else d.place? [] (components file)

def isFile (d : Disk) (file : String) : Bool :=
  match d.find file with
  | .node (.file _) => true
  | _ => false

/-- The names in the directory itself. -/
def names (d : Disk) : List String :=
  d.nodes.filterMap fun e =>
    match e.1 with
    | [name] => if isEntry name then some name else none
    | _ => none

/-- Makes the directory, unless there is one or a file is in its place. -/
def makeDirectory (d : Disk) : Option Disk :=
  match d.node? [] with
  | some .folder => some d
  | some (.file _) => none
  | none => some (d.put [] .folder)

end Disk
end RelStore
