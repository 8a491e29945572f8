import RelStore.Error

/-! Handles by which a run can be told to stop. Handles that were copied from one
another share a flag; each has a deadline of its own, if any. -/
namespace RelStore

structure Handle where
  /-- the number of its flag -/
  flag : Nat
  /-- the time from which on the handle is cancelled -/
  deadline : Option Int
deriving DecidableEq, Inhabited

/-- The flags that were raised, and the number of the next new flag. -/
structure Switchboard where
  raised : List Nat
  next : Nat
deriving Inhabited

namespace Switchboard

def empty : Switchboard := ⟨[], 0⟩

def handle (b : Switchboard) : Handle × Switchboard :=
  (⟨b.next, none⟩, { b with next := b.next + 1 })

def cancel (b : Switchboard) (h : Handle) : Switchboard :=
  { b with raised := h.flag :: b.raised }

/-- Whether a handle is cancelled at some time. -/
def isCancelled (b : Switchboard) (now : Int) (h : Handle) : Bool :=
  b.raised.contains h.flag ||
    match h.deadline with
    | some t => t ≤ now
    | none => false

def check (b : Switchboard) (now : Int) (h : Handle) : Except Error Unit :=
  if b.isCancelled now h then .error .cancelled else .ok ()

end Switchboard

def Handle.withDeadline (h : Handle) (t : Int) : Handle := { h with deadline := some t }

end RelStore
