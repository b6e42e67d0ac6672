import NorDisk.Clock
import NorDisk.FlashError
import NorDisk.Geometry
import NorDisk.Trap

/-!
# Flash controllers

What a disk asks of the hardware: two modes, two commands that only start their work, a busy flag
and a read window. `Controller` is any state with these primitives; the busy flag may answer as it
likes, a window read answers as many bytes as were asked for.

`execute` wraps one command in busy waits: the part is seen idle before the command is issued and
again after it. A wait is bounded by the clock (`Patience.timeout`); a clock that never moves is
cut off by an allowance of polls, which is a trap and not a refusal.
-/

namespace NorDisk

/-- Which of its two paths the part serves. -/
inductive Mode where
  /-- Reads through the window, no commands. -/
  | mapped
  /-- Commands, no reads through the window. -/
  | command
deriving DecidableEq, Repr

/-- A command that changes the contents of the part. -/
inductive Command where
  | erase (offset : UInt32)
  | program (offset : UInt32) (data : List UInt8)
deriving DecidableEq, Repr

def Command.offset : Command → UInt32
  | erase offset => offset
  | program offset _ => offset

/-- The primitives of a flash controller. -/
class Controller (σ : Type) where
  enterMapped : σ → σ
  enterCommand : σ → σ
  /-- Start erasing the sector at an offset. -/
  beginErase : UInt32 → σ → σ
  /-- Start programming bytes at an offset. -/
  beginProgram : UInt32 → List UInt8 → σ → σ
  isBusy : σ → Bool × σ
  /-- Bytes of the window from an address on. -/
  readMapped : UInt32 → Nat → σ → List UInt8 × σ
  length_readMapped : ∀ addr len s, (readMapped addr len s).1.length = len

/-- How long to wait for the busy flag. -/
structure Patience where
  /-- Milliseconds after which a busy part counts as stalled. -/
  timeout : UInt32 := busyTimeout
  /-- Polls after which the wait is given up even if no time passes. -/
  polls : Nat := 0x100000000
deriving DecidableEq, Repr

namespace Controller

variable {σ : Type} [Controller σ] [TickSource σ]

def issue : Command → σ → σ
  | .erase offset => beginErase offset
  | .program offset data => beginProgram offset data

/-- Poll the busy flag until it clears, the timeout passes or the polls run out. -/
def pollIdle (timeout offset start : UInt32) : Nat → Action FlashError σ Unit
  | 0 => Action.stop .stuck
  | polls + 1 => do
    let busy ← Action.ofStep isBusy
    if busy then do
      let now ← Action.ofStep TickSource.now
      if timeout < elapsed start now then Action.refuse (.stalled offset)
      else pollIdle timeout offset start polls
    else pure ()

/-- Wait until the part is idle; `offset` is named if it stalls. -/
def waitIdle (patience : Patience) (offset : UInt32) : Action FlashError σ Unit := do
  let start ← Action.ofStep TickSource.now
  pollIdle patience.timeout offset start patience.polls

/-- Issue a command to an idle part and see it through. -/
def execute (patience : Patience) (command : Command) : Action FlashError σ Unit := do
  waitIdle patience command.offset
  Action.ofUpdate (issue command)
  waitIdle patience command.offset

/-- Execute commands in order, up to the first that stalls. -/
def executeAll (patience : Patience) : List Command → Action FlashError σ Unit
  | [] => pure ()
  | command :: rest => do
    execute patience command
    executeAll patience rest

end Controller

/-- A controller next to a clock of its own. -/
structure Bench (κ : Type) where
  part : κ
  clock : StepClock

namespace Bench

variable {κ : Type}

instance [Controller κ] : Controller (Bench κ) where
  enterMapped b := { b with part := Controller.enterMapped b.part }
  enterCommand b := { b with part := Controller.enterCommand b.part }
  beginErase offset b := { b with part := Controller.beginErase offset b.part }
  beginProgram offset data b := { b with part := Controller.beginProgram offset data b.part }
  isBusy b :=
    let (busy, part) := Controller.isBusy b.part
    (busy, { b with part })
  readMapped addr len b :=
    let (bytes, part) := Controller.readMapped addr len b.part
    (bytes, { b with part })
  length_readMapped addr len b := Controller.length_readMapped addr len b.part

instance : TickSource (Bench κ) where
  now b :=
    let (now, clock) := b.clock.read
    (now, { b with clock })

end Bench

end NorDisk
