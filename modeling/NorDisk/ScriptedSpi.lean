import NorDisk.SpiNor

/-!
# A SPI bus that follows a script

The script says which transactions fail and which bytes are received. The bus keeps a record of all
that it was asked to do, so that a run of commands can be compared with what should reach the part.
-/

namespace NorDisk

/-- What a scripted bus was asked to do. -/
inductive BusEvent where
  | transaction (ops : List SpiOp) (failed : Bool)
  | setMapped (mapped : Bool)
  | readWindow (addr : UInt32) (len : Nat)
deriving DecidableEq, Repr

/-- A bus with its script and its record. -/
structure ScriptedSpi where
  /-- Bytes that are still to be received. -/
  replies : List UInt8 := []
  /-- What is received after the script has ended. -/
  idleReply : UInt8 := 0
  /-- Does the transaction of this number fail? -/
  fails : Nat → Bool := fun _ => false
  /-- Transactions so far. -/
  transactions : Nat := 0
  events : Array BusEvent := #[]

namespace ScriptedSpi

/-- Receive `n` bytes. -/
def receive (n : Nat) (s : ScriptedSpi) : List UInt8 × ScriptedSpi :=
  let scripted := s.replies.take n
  (scripted ++ List.replicate (n - scripted.length) s.idleReply,
    { s with replies := s.replies.drop n })

/-- What one part of a transaction receives. -/
def answer (op : SpiOp) (s : ScriptedSpi) : List UInt8 × ScriptedSpi :=
  match op with
  | .write _ => ([], s)
  | .read len => s.receive len
  | .transfer len _ => s.receive len
  | .inPlace data => s.receive data.length
  | .delay _ => ([], s)

/-- What the parts of a transaction receive. -/
def answers : List SpiOp → ScriptedSpi → List (List UInt8) × ScriptedSpi
  | [], s => ([], s)
  | op :: rest, s =>
    let (received, s) := s.answer op
    let (later, s) := answers rest s
    (received :: later, s)

/-- Record an event. -/
def record (event : BusEvent) (s : ScriptedSpi) : ScriptedSpi :=
  { s with events := s.events.push event }

instance : SpiDevice ScriptedSpi where
  transaction ops s :=
    let failed := s.fails s.transactions
    let s := { s.record (.transaction ops failed) with transactions := s.transactions + 1 }
    if failed then (none, s)
    else
      let (received, s) := answers ops s
      (some received, s)

/-- The byte that the window of a scripted bus shows at an address. -/
def windowByte (addr : UInt32) : UInt8 := (addr ^^^ (addr >>> 8)).toUInt8

instance : XipWindow ScriptedSpi where
  setMapped mapped s := s.record (.setMapped mapped)
  readWindow addr len s :=
    ((List.range len).map fun i => windowByte (addr + i.toUInt32), s.record (.readWindow addr len))
  length_readWindow _ _ _ := by simp

end ScriptedSpi

end NorDisk
