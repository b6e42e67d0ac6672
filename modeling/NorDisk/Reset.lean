import NorDisk.Clock

/-!
# Deferred reset

At most one reset is pending: the last request, unless it was cancelled. It becomes due once the
clock is past its deadline and stays pending until then.
-/

namespace NorDisk

/-- Milliseconds between the last update record and the reset. -/
def resetDelay : UInt32 := 1000

/-- The value of the reboot register that boots `image`, of which the low two bits count. -/
def rebootValue (image : UInt8) : UInt8 := 0xAC ||| (image &&& 3)

/-- The pending reset, if any, and the image of the last request. -/
structure Reset where
  deadline : Option UInt32 := none
  image : UInt8 := 0
deriving DecidableEq, Repr

namespace Reset

/-- Ask for a reset into `image` once `delay` has passed; it replaces a pending one. -/
def request (now delay : UInt32) (image : UInt8) : Reset := ⟨some (now + delay), image⟩

/-- Drop the pending reset. -/
def cancel (r : Reset) : Reset := { r with deadline := none }

/-- Is a reset pending? -/
def isPending (r : Reset) : Bool := r.deadline.isSome

/-- The value for the reboot register, once a pending reset is due. -/
def due? (r : Reset) (now : UInt32) : Option UInt8 :=
  match r.deadline with
  | some deadline => if isPast now deadline then some (rebootValue r.image) else none
  | none => none

end Reset

end NorDisk
