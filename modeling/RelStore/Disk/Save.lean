import RelStore.Disk
import RelStore.Error

/-! How a file is replaced. A new file beside it is written in full and then takes its name;
the device may refuse any step of this, also one behind the step that puts the file in its
place. -/
namespace RelStore
namespace Disk

inductive Step where
  | makeDirectory
  | createFile (p : Path)
  /-- bytes of a document, which are flushed to the file once the document is complete, or
  else are written while it is made -/
  | append (p : Path) (bytes : List UInt8) (flushed : Bool)
  | syncFile (p : Path)
  | rename (p : Path) (file : String)
  | syncDirectory

def Step.refusal : Step → Error
  | .append _ _ false => .unwritten
  | _ => .io

def step (d : Disk) : Step → Option Disk
  | .makeDirectory => d.makeDirectory
  | .createFile p => some (d.put p (.file []))
  | .append p bytes _ =>
    match d.node? p with
    | some (.file old) => some (d.put p (.file (old ++ bytes)))
    | _ => none
  | .rename p file =>
    match d.node? p, d.placeOf? file with
    | some (.file bytes), some q =>
      if d.node? q = some .folder then none else some ((d.remove p).put q (.file bytes))
    | _, _ => none
  | .syncFile _ => some d
  | .syncDirectory => some d

def perform (refuses : Nat → Bool) (k : Nat) : List Step → Disk → Except Error Unit × Disk
  | [], d => (.ok (), d)
  | s :: rest, d =>
    if refuses k then (.error s.refusal, d)
    else
      match d.step s with
      | some d => perform refuses (k + 1) rest d
      | none => (.error s.refusal, d)

def temporaryMark : String := "tmp-"

def temporaryName (drawn : String) : String := temporaryMark ++ drawn ++ ".json"

/-- What is not the same for every save: which steps are refused, under which name the new
file is made, and in which pieces a document is written, those while it is made first. -/
structure Device where
  refuses : Nat → Bool
  temporary : Disk → String
  pieces : List UInt8 → List (List UInt8) × List (List UInt8)
  named : ∀ d, ∃ drawn, temporary d = temporaryName drawn
  free : ∀ d : Disk, d.node? [temporary d] = none
  whole : ∀ bytes, ((pieces bytes).1 ++ (pieces bytes).2).flatten = bytes

def numberedName (k : Nat) : String := temporaryName (String.ofList (Nat.toDigits 10 k))

theorem numberedName_inj {j k : Nat} (h : numberedName j = numberedName k) : j = k := by
  have hl := congrArg String.toList h
  simp only [numberedName, temporaryName, String.toList_append, String.toList_ofList] at hl
  have hdigits := List.append_cancel_left (List.append_cancel_right hl)
  have hnumber := congrArg (fun cs => Nat.ofDigitChars 10 cs 0) hdigits
  simpa only [Nat.ofDigitChars_toDigits (b := 10) (by decide) (by decide)] using hnumber

def freshFrom (d : Disk) : Nat → Nat → String
  | k, 0 => numberedName k
  | k, fuel + 1 =>
    if d.node? [numberedName k] = none then numberedName k else freshFrom d (k + 1) fuel

def fresh (d : Disk) : String := freshFrom d 0 d.nodes.length

theorem freshFrom_eq (d : Disk) (k fuel : Nat) : ∃ j, d.freshFrom k fuel = numberedName j := by
  induction fuel generalizing k with
  | zero => exact ⟨k, rfl⟩
  | succ fuel ih =>
    rw [freshFrom]
    split
    · exact ⟨k, rfl⟩
    · exact ih (k + 1)

theorem node?_freshFrom {d : Disk} {fuel k : Nat}
    (h : ∃ j, k ≤ j ∧ j ≤ k + fuel ∧ d.node? [numberedName j] = none) :
    d.node? [d.freshFrom k fuel] = none := by
  obtain ⟨j, hkj, hjk, hj⟩ := h
  induction fuel generalizing k with
  | zero =>
    have hjk : j = k := by omega
    rw [← hjk]
    exact hj
  | succ fuel ih =>
    rw [freshFrom]
    split
    · assumption
    · rename_i htaken
      refine ih ?_ (by omega)
      rcases Nat.lt_or_eq_of_le hkj with hlt | rfl
      · exact hlt
      · exact absurd hj htaken

theorem exists_numberedName_not_mem (n : Nat) (paths : List Path) (h : paths.length ≤ n) :
    ∃ j, j ≤ n ∧ [numberedName j] ∉ paths := by
  induction n generalizing paths with
  | zero =>
    have hnil : paths = [] := List.eq_nil_of_length_eq_zero (by omega)
    exact ⟨0, Nat.le_refl 0, by simp [hnil]⟩
  | succ n ih =>
    by_cases hlast : [numberedName (n + 1)] ∈ paths
    · have hlength := List.length_erase_of_mem hlast
      obtain ⟨j, hj, hfree⟩ := ih (paths.erase [numberedName (n + 1)]) (by omega)
      refine ⟨j, by omega, fun hmem => hfree ?_⟩
      refine (List.mem_erase_of_ne fun hsame => ?_).2 hmem
      have hjn := numberedName_inj (List.cons.inj hsame).1
      omega
    · exact ⟨n + 1, Nat.le_refl _, hlast⟩

theorem node?_fresh (d : Disk) : d.node? [d.fresh] = none := by
  obtain ⟨j, hj, hfree⟩ := exists_numberedName_not_mem d.nodes.length (d.nodes.map Prod.fst)
    (Nat.le_of_eq (List.length_map Prod.fst))
  refine node?_freshFrom ⟨j, Nat.zero_le j, by omega, ?_⟩
  refine List.lookup_eq_none_iff.2 fun e he => ?_
  rw [bne_iff_ne]
  exact fun hpath => hfree (hpath ▸ List.mem_map_of_mem he)

/-- A device that refuses nothing, takes the first free name, and is given a document as a
whole. -/
def Device.willing : Device where
  refuses _ := false
  temporary := fresh
  pieces bytes := ([], [bytes])
  named d := by
    obtain ⟨k, hk⟩ := d.freshFrom_eq 0 d.nodes.length
    exact ⟨_, hk⟩
  free := node?_fresh
  whole bytes := by simp

/-- The steps before the new file is put in its place. -/
def prepareSteps (sync : Bool) (temporary : String)
    (pieces : List (List UInt8) × List (List UInt8)) : List Step :=
  .makeDirectory :: .createFile [temporary] ::
    pieces.1.map (.append [temporary] · false) ++ pieces.2.map (.append [temporary] · true) ++
    if sync then [.syncFile [temporary]] else []

/-- The steps behind that. -/
def settleSteps (sync : Bool) : List Step := if sync then [.syncDirectory] else []

def commitSteps (sync : Bool) (temporary file : String)
    (pieces : List (List UInt8) × List (List UInt8)) : List Step :=
  prepareSteps sync temporary pieces ++ [.rename [temporary] file]

def commit (device : Device) (sync : Bool) (d : Disk) (file : String) (bytes : List UInt8) :
    Except Error Unit × Disk :=
  perform device.refuses 0 (commitSteps sync (device.temporary d) file (device.pieces bytes)) d

def saveOn (device : Device) (sync : Bool) (d : Disk) (file : String) (bytes : List UInt8) :
    Except Error Unit × Disk :=
  let temporary := device.temporary d
  match d.commit device sync file bytes with
  | (.ok (), d') =>
    let done := (commitSteps sync temporary file (device.pieces bytes)).length
    perform device.refuses done (settleSteps sync) d'
  | (.error e, d') => (.error e, d'.remove [temporary])

end Disk
end RelStore
