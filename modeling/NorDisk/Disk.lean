import NorDisk.Bytes
import NorDisk.Controller
import NorDisk.Layout

/-!
# A block disk on a NOR part

`Disk σ` serves reads and writes of 256-byte blocks from a controller `σ`. Reads come from the
window. Writes follow one of two policies:

* `onSectorStart` executes commands at once. A block that starts a sector erases it first; any other
  block trusts that an earlier write did.
* `staged` keeps one sector in memory. Blocks of it may arrive in any order; it is written back,
  erase first and blank pages left out, when another sector is needed and on `flush`.

Each request either names the blocks that are wrong and touches nothing, or does its work and may
stop at a command on which the part stalls.
-/

namespace NorDisk

/-- When sectors are erased. -/
inductive ErasePolicy where
  /-- When a write starts on the first block of a sector. -/
  | onSectorStart
  /-- When a sector that was changed in memory is written back. -/
  | staged
deriving DecidableEq, Repr

def ErasePolicy.name : ErasePolicy → String
  | onSectorStart => "SectorBoundary"
  | staged => "ReadModifyWrite"

/-- The copy of one sector in memory. -/
structure StagedSector where
  base : UInt32
  data : List UInt8
  length_data : data.length = 4096
  /-- Does the copy hold writes that have not reached the part? -/
  dirty : Bool

namespace StagedSector

/-- The copy of a sector with these contents. -/
def ofBytes (base : UInt32) (bytes : List UInt8) (h : bytes.length = 4096) : StagedSector where
  base := base
  data := bytes
  length_data := h
  dirty := false

/-- The copy with the bytes from place `start` on replaced. -/
def write (start : Nat) (bytes : List UInt8) (s : StagedSector) : Except Trap StagedSector :=
  if h : start + bytes.length ≤ 4096 then
    .ok {
      base := s.base
      data := Bytes.splice s.data start bytes
      length_data := by rw [Bytes.length_splice (by rw [s.length_data]; exact h), s.length_data]
      dirty := true }
  else .error .outOfBounds

/-- The commands that bring `n` pages from page `i` on to an erased sector, without blank pages. -/
def pageCommands (s : StagedSector) : Nat → UInt32 → Except Trap (List Command)
  | 0, _ => .ok []
  | n + 1, i => do
    let start := i * pageBytes
    let page ← Checked.slice s.data start.toNat (start.toNat + 256)
    let later ← s.pageCommands n (i + 1)
    if page.all (· == erasedByte) then return later
    return .program (← Checked.add s.base start) page :: later

def commands (s : StagedSector) : Except Trap (List Command) := do
  return .erase s.base :: (← s.pageCommands 16 0)

/-- Bytes read from the part from `offset` on, with those that are pending taken from the copy. -/
def overlay (s : StagedSector) (offset : UInt32) (bytes : List UInt8) :
    Except Trap (List UInt8) := do
  let start := max offset s.base
  let stop := min (← Checked.add offset bytes.length.toUInt32) (← Checked.add s.base sectorBytes)
  if stop ≤ start then return bytes
  let len := (← Checked.sub stop start).toNat
  let target := (← Checked.sub start offset).toNat
  let source := (← Checked.sub start s.base).toNat
  Checked.splice bytes target (← Checked.slice s.data source (source + len))

end StagedSector

/-- What a disk knows apart from its device. -/
structure Store where
  layout : Layout
  layout_valid : layout.Valid
  policy : ErasePolicy
  /-- The path that the disk last switched to; a part starts with its window. -/
  mode : Mode := .mapped
  patience : Patience := {}
  stage : Option StagedSector := none

namespace Store

/-- A store on a layout; a layout that breaks the alignment rules traps. -/
def ofLayout (layout : Layout) (policy : ErasePolicy) : Except Trap Store :=
  if h : layout.Valid then .ok { layout, layout_valid := h, policy } else .error .invalidLayout

/-- The staged sector, if it holds writes that have not reached the part. -/
def pending? (s : Store) : Option StagedSector := s.stage.filter (·.dirty)

/-- Does the store hold writes that have not reached the part? -/
def hasPending (s : Store) : Bool := s.pending?.isSome

end Store

namespace Layout

/-- Refuse blocks outside the region, then a buffer with too little room. -/
def checkRequest (l : Layout) (lba count : UInt32) (room : Nat) :
    Except (Fault FlashError) Unit :=
  match l.blockCount with
  | .error cause => .error (.trap cause)
  | .ok blocks =>
    if blocks.toNat < lba.toNat + count.toNat then .error (.refused (.outOfRange lba count))
    else if room < 256 * count.toNat then
      .error (.refused (.bufferTooSmall (256 * count.toNat) room))
    else .ok ()

end Layout

/-- A store with the device that it works on. -/
structure Disk (σ : Type) where
  store : Store
  device : σ

namespace Disk

variable {σ : Type}

/-- An action on the device alone. -/
def onDevice {α : Type} (act : Action FlashError σ α) : Action FlashError (Disk σ) α :=
  fun ⟨store, device⟩ =>
    match act device with
    | .ok a device => .ok a ⟨store, device⟩
    | .error fault device => .error fault ⟨store, device⟩

def ask {α : Type} (f : Store → α) : Action FlashError (Disk σ) α := fun d =>
  let a := f d.store
  .ok a d

def update (f : Store → Store) : Action FlashError (Disk σ) Unit := fun d =>
  .ok () { d with store := f d.store }

variable [Controller σ] [TickSource σ]

def enterCommand : Action FlashError (Disk σ) Unit := do
  onDevice (.ofUpdate Controller.enterCommand)
  update ({ · with mode := .command })

def ensureCommand : Action FlashError (Disk σ) Unit := do
  if (← ask (·.mode)) ≠ .command then enterCommand

def ensureMapped : Action FlashError (Disk σ) Unit := do
  if (← ask (·.mode)) ≠ .mapped then
    onDevice (.ofUpdate Controller.enterMapped)
    update ({ · with mode := .mapped })

def execute (command : Command) : Action FlashError (Disk σ) Unit := do
  let patience ← ask (·.patience)
  onDevice (Controller.execute patience command)

/-- Execute commands in order, up to the first that stalls. -/
def executeAll (commands : List Command) : Action FlashError (Disk σ) Unit := do
  let patience ← ask (·.patience)
  onDevice (Controller.executeAll patience commands)

def flush : Action FlashError (Disk σ) Unit := do
  match ← ask (·.pending?) with
  | none => pure ()
  | some sector =>
    ensureCommand
    executeAll (← .ofChecked sector.commands)
    update ({ · with stage := some { sector with dirty := false } })

/-- Stage a sector, after the staged one has been written back. -/
def loadSector (base : UInt32) : Action FlashError (Disk σ) Unit := do
  if (← ask (·.stage.map (·.base))) ≠ some base then
    flush
    ensureMapped
    let addr ← .ofChecked (Checked.add windowBase base)
    let sector ← onDevice (.ofStep fun device =>
      let bytes := Controller.readMapped addr sectorBytes.toNat device
      (StagedSector.ofBytes base bytes.1 (Controller.length_readMapped _ _ _), bytes.2))
    update ({ · with stage := some sector })

/-! ### Writing at once -/

/-- Program blocks page by page, the first one to page `i` from `offset` on. -/
def programPages (offset : UInt32) : UInt32 → List (List UInt8) → Action FlashError (Disk σ) Unit
  | _, [] => pure ()
  | i, block :: rest => do
    let place ← .ofChecked (Checked.mul i blockBytes)
    let page ← .ofChecked (Checked.add offset place)
    execute (.program page block)
    programPages offset (i + 1) rest

/-- Write the blocks of a run from `lba` on; a run that starts on the first block of its sector
erases it. -/
def writeRun (lba : UInt32) (blocks : List (List UInt8)) : Action FlashError (Disk σ) Unit := do
  let layout ← ask (·.layout)
  let offset ← .ofChecked (layout.offsetOf lba)
  if blockInSector lba = 0 then execute (.erase (sectorBase offset))
  programPages offset 0 blocks

/-- Write `remaining` blocks from `lba` on, sector by sector. The blocks of a run are the next ones
of `blocks`. -/
def writeRuns (lba remaining : UInt32) (blocks : List (List UInt8)) :
    Action FlashError (Disk σ) Unit := do
  if remaining = 0 then return
  let run := runLength lba remaining
  writeRun lba (blocks.take run.toNat)
  let next ← .ofChecked (Checked.add lba run)
  writeRuns next (remaining - run) (blocks.drop run.toNat)
termination_by remaining.toNat
decreasing_by exact toNat_sub_runLength_lt lba ‹_›

/-- Write `count` blocks from `lba` on, at once. -/
def writeThrough (lba count : UInt32) (blocks : List (List UInt8)) :
    Action FlashError (Disk σ) Unit := do
  enterCommand
  writeRuns lba count blocks

/-! ### Writing into the staged sector -/

/-- Replace bytes of the staged sector. -/
def writeStage (start : Nat) (bytes : List UInt8) : Action FlashError (Disk σ) Unit := do
  match ← ask (·.stage) with
  | none => pure ()
  | some sector =>
    let written ← .ofChecked (sector.write start bytes)
    update ({ · with stage := some written })

/-- Copy a run of `run` blocks into its sector, from place `cursor` of `source` to block `lba`. -/
def stageRun (source : List UInt8) (cursor : Nat) (lba run : UInt32) :
    Action FlashError (Disk σ) Unit := do
  let layout ← ask (·.layout)
  let offset ← .ofChecked (layout.offsetOf lba)
  let sector := sectorBase offset
  loadSector sector
  let start ← .ofChecked (Checked.sub offset sector)
  let bytes ← .ofChecked (Checked.slice source cursor (cursor + 256 * run.toNat))
  writeStage start.toNat bytes

/-- Copy `remaining` blocks into their sectors, one sector after the other, from place `cursor` of
`source` on. -/
def stageRuns (source : List UInt8) (cursor : Nat) (lba remaining : UInt32) :
    Action FlashError (Disk σ) Unit := do
  if remaining = 0 then return
  let run := runLength lba remaining
  stageRun source cursor lba run
  let next ← .ofChecked (Checked.add lba run)
  stageRuns source (cursor + 256 * run.toNat) next (remaining - run)
termination_by remaining.toNat
decreasing_by exact toNat_sub_runLength_lt lba ‹_›

/-- Write `count` blocks of `source` from `lba` on, each into its sector when that is staged. -/
def writeStaged (lba count : UInt32) (source : List UInt8) : Action FlashError (Disk σ) Unit :=
  stageRuns source 0 lba count

/-! ### Requests -/

/-- Refuse a request that does not fit the region or the buffer. -/
def checkRequest (lba count : UInt32) (room : Nat) : Action FlashError (Disk σ) Unit := do
  let layout ← ask (·.layout)
  MonadExcept.ofExcept (layout.checkRequest lba count room)

/-- Copy `count` blocks from `lba` on over the front of `buffer`. -/
def readBlocks (buffer : List UInt8) (lba count : UInt32) :
    Action FlashError (Disk σ) (List UInt8) := do
  if count = 0 then return buffer
  checkRequest lba count buffer.length
  ensureMapped
  let layout ← ask (·.layout)
  let addr ← .ofChecked (layout.mappedOf lba)
  let front ← .ofChecked (Checked.slice buffer 0 (256 * count.toNat))
  let bytes ← onDevice (.ofStep (Controller.readMapped addr front.length))
  let offset ← .ofChecked (layout.offsetOf lba)
  match ← ask (·.pending?) with
  | none => return Bytes.overwrite buffer bytes
  | some sector => return Bytes.overwrite buffer (← .ofChecked (sector.overlay offset bytes))

/-- Write `count` blocks from the front of `source` from `lba` on. -/
def writeBlocks (source : List UInt8) (lba count : UInt32) : Action FlashError (Disk σ) Unit := do
  if count = 0 then return
  checkRequest lba count source.length
  let bytes ← .ofChecked (Checked.slice source 0 (256 * count.toNat))
  match ← ask (·.policy) with
  | .onSectorStart => writeThrough lba count (Bytes.wholePieces 256 bytes)
  | .staged => writeStaged lba count bytes

end Disk

end NorDisk
