import NorDisk.Crc32
import NorDisk.NorPart
import NorDisk.Svf.Program
import NorDisk.Tool.Arguments
import NorDisk.Uf2.File
import NorDisk.Uf2.Transfer

/-!
# What the commands produce

Each command but `boards` turns the contents of one file into the contents of another and a report.
`uf2Product` wraps data in an update file, `imageProduct` replays an update file into a part and
takes its data region, `svfProduct` writes the vector file that programs an image.
-/

namespace NorDisk.Tool

/-- Why a command did not do its work. -/
inductive Refusal where
  | unreadable (path : String)
  | unwritable (path : String)
  | uncreatable (path : String)
  /-- Data has to start on a sector. -/
  | offSector (offset : UInt32)
  | tooLarge (size : Nat) (offset regionBytes : UInt32) (board : String)
  | partialRecord (error : Uf2.File.PartialRecord)
  | rejected (record : Nat) (error : Uf2.Error)
  | unflushed (error : FlashError)
  | misused (misuse : Misuse)
  /-- An image has to start on a block of 64 KiB. -/
  | offBlock (offset : UInt32)
  | noIdcode (path : String)
deriving DecidableEq, Repr

def Refusal.message : Refusal → String
  | unreadable path => "Failed to read " ++ path
  | unwritable path => "Failed to write " ++ path
  | uncreatable path => "Failed to create " ++ path
  | offSector offset =>
    "Offset 0x" ++ Hex.lower 1 offset.toNat ++ s!" is not a multiple of {sectorBytes.toNat} bytes"
  | tooLarge size offset regionBytes board =>
    s!"{size} bytes at offset 0x" ++ Hex.lower 1 offset.toNat ++
      s!" do not fit in the {regionBytes.toNat / 1024} KiB data region of {board}"
  | partialRecord error => error.message
  | rejected record error => s!"Record {record} rejected: " ++ error.message
  | unflushed _ => "Failed to flush the translator"
  | misused m =>
    "Flash controller misuse during replay: Violations \x7b " ++
      s!"command_while_mapped: {m.commandWhileMapped}, " ++
      s!"read_while_command: {m.readWhileCommand}, " ++
      s!"command_while_busy: {m.commandWhileBusy}" ++ " \x7d"
  | offBlock offset => "Offset 0x" ++ Hex.lower 1 offset.toNat ++ " is not 64 KiB-aligned"
  | noIdcode path => s!"No IDCODE found in {path}; pass --idcode"

/-- What a command makes of its input. -/
structure Product where
  contents : ByteArray
  report : String
  /-- Why the contents stop short, if they do. -/
  trap : Option Trap := none

/-- The outcome of a command on its input. -/
abbrev Making := Except (Fault Refusal)

/-- The value of a computation that may trap. -/
def Making.ofChecked {α : Type} : Except Trap α → Making α
  | .ok a => .ok a
  | .error cause => .error (.trap cause)

/-- A report of its lines. -/
def reportOf (lines : List String) : String := String.join (lines.map (· ++ "\n"))

/-- The size and the checksum of data, for a report. -/
def sizeAndChecksum (bytes : ByteArray) : String :=
  s!"{bytes.size} bytes, CRC32: " ++ Hex.word (Crc32.ofByteArray bytes)

/-- Text at the right end of a column. -/
def right (width : Nat) (text : String) : String := String.ofList (text.toList.leftpad width ' ')

/-- Text at the left end of a column. -/
def left (width : Nat) (text : String) : String := String.ofList (text.toList.rightpad width ' ')

/-- A number as `0x` and as few digits as it needs. -/
def hex (w : UInt32) : String := "0x" ++ Hex.lower 1 w.toNat

def boardLine (l : Layout) : Except Trap String := do
  let mapped ← l.mappedBase
  let blocks ← l.blockCount
  return " ".intercalate
    [left 18 l.name, right 7 (toString (l.flashBytes.toNat / 1024)) ++ " KiB",
      right 12 (hex l.regionBase), right 12 (hex mapped), right 8 (toString blocks.toNat),
      right 10 (hex l.family)]

def boardList : Except Trap String := do
  let header := " ".intercalate
    [left 18 "BOARD", right 10 "FLASH", right 12 "DATA BASE", right 12 "MMAP BASE",
      right 8 "BLOCKS", right 10 "FAMILY"]
  return reportOf (header :: (← Board.all.mapM (boardLine ·.layout)))

/-- Data has to start on a sector and to end inside the region. -/
def checkPlacement (l : Layout) (offset : UInt32) (size : Nat) : Making Unit := do
  if offset % sectorBytes ≠ 0 then throw (.refused (.offSector offset))
  let regionBytes ← Making.ofChecked l.regionBytes
  if regionBytes.toNat < offset.toNat + size then
    throw (.refused (.tooLarge size offset regionBytes l.name))

/-- Wrap data in an update file for a board. -/
def uf2Product (file output : String) (l : Layout) (offset : UInt32) (data : ByteArray) :
    Making Product := do
  checkPlacement l offset data.size
  let base ← Making.ofChecked (l.mappedBase >>= (Checked.add · offset))
  let contents ← Making.ofChecked (Uf2.encodeData data base l.family)
  return {
    contents
    report := reportOf
      [s!"Input:  {file} (" ++ sizeAndChecksum data ++ ")",
        s!"Output: {output} ({Uf2.blocksFor data.size} blocks at " ++ Hex.word base ++
          ", family " ++ Hex.word l.family ++ ")"] }

/-- Counts of a replay. -/
structure Tally where
  written : Nat := 0
  ignored : Nat := 0
  complete : Bool := false
deriving DecidableEq, Repr

def Tally.count (t : Tally) : Uf2.Status → Tally
  | .written _ => { t with written := t.written + 1 }
  | .ignored => { t with ignored := t.ignored + 1 }
  | .complete (some _) => { t with written := t.written + 1, complete := true }
  | .complete none => { t with ignored := t.ignored + 1, complete := true }

/-- A fresh part behind a disk, ready for the records of a board. -/
def freshIntake (l : Layout) (policy : ErasePolicy) :
    Except Trap (Uf2.Intake (Bench NorPart)) := do
  let store ← Store.ofLayout l policy
  return {
    transfer := { family := l.family }
    disk := {
      store
      device := { part := NorPart.blank l.flashBytes.toNat, clock := { now := 0, step := 1 } } } }

/-- Take the records of a file, then bring pending writes to the part. -/
def replay (f : Uf2.File) : Action Refusal (Uf2.Intake (Bench NorPart)) Tally := do
  let tally ← (List.range f.count).foldlM (fun (t : Tally) i => do
    let status ← (Uf2.Intake.receive (f.record i)).mapError (.rejected i)
    return t.count status) {}
  (Uf2.Intake.withDisk Disk.flush).mapError .unflushed
  return tally

/-- The length of the first `n` bytes without the erased ones at their end. -/
def usedLength (bytes : ByteArray) : Nat → Nat
  | 0 => 0
  | n + 1 => if Memory.byteAt bytes n = erasedByte then usedLength bytes n else n + 1

/-- The data region of a part, without erased bytes at its end if they are to be trimmed. -/
def regionOf (l : Layout) (trim : Bool) (memory : ByteArray) : ByteArray :=
  let region := memory.extract l.regionBase.toNat memory.size
  if trim then region.extract 0 (usedLength region region.size) else region

/-- Replay an update file into the part of a board and take its data region. -/
def imageProduct (output : String) (l : Layout) (policy : ErasePolicy) (trim : Bool)
    (input : ByteArray) : Making Product := do
  let f ← (Uf2.File.ofBytes input).mapError (.refused ∘ .partialRecord)
  let start ← Making.ofChecked (freshIntake l policy)
  match replay f start with
  | .error fault _ => .error fault
  | .ok tally intake =>
    let part := intake.disk.device.part
    if part.misuse.total ≠ 0 then throw (.refused (.misused part.misuse))
    let contents := regionOf l trim part.memory
    let warning := if tally.complete then [] else
      ["Warning:  transfer did not complete, some blocks are missing"]
    return {
      contents
      report := reportOf <|
        [s!"Board:    {l.name} ({policy.name})",
          s!"Records:  {tally.written} written, {tally.ignored} ignored"] ++ warning ++
        [s!"Flash:    {part.erases} sector erases, {part.programs} page programs",
          s!"Image:    {output} (" ++ sizeAndChecksum contents ++ ")"] }

/-- Write the vector file that programs an image into the part. -/
def svfProduct (file output : String) (offset : UInt32) (idcode : Option UInt32)
    (image : ByteArray) : Making Product := do
  if offset % 65536 ≠ 0 then throw (.refused (.offBlock offset))
  match idcode <|> Svf.findIdcode image with
  | none => throw (.refused (.noIdcode file))
  | some idcode =>
    let (statements, trap) := ({} : Svf.Part).program image offset
    let text ← Making.ofChecked (Svf.render statements)
    let contents := if trap.isSome then Svf.opening idcode ++ text else Svf.enclose idcode text
    return {
      contents := contents.toUTF8
      report := reportOf
        [s!"SVF:    {output} ({image.size} bytes at 0x" ++ Hex.lower 6 offset.toNat ++
          ", IDCODE " ++ Hex.word idcode ++ ", CRC32: " ++ Hex.word (Crc32.ofByteArray image) ++
          ")"]
      trap }

def Command.paths? : Command → Option (String × String)
  | boards => none
  | uf2 file output .. => some (file, output)
  | image file output .. => some (file, output)
  | svf file output .. => some (file, output)

/-- What a command makes of its input; the list of boards needs none. -/
def Command.make (c : Command) (input : ByteArray) : Making Product :=
  match c with
  | boards => do return { contents := ByteArray.empty, report := ← Making.ofChecked boardList }
  | uf2 file output board offset => uf2Product file output board.layout offset input
  | image _ output board policy trim => imageProduct output board.layout policy trim input
  | svf file output offset idcode => svfProduct file output offset idcode input

def Command.outputRefusal : Command → String → Refusal
  | uf2 .. => .unwritable
  | _ => .uncreatable

end NorDisk.Tool
