import NorDisk.FlashError
import NorDisk.Geometry
import NorDisk.Trap

/-!
# Board layouts

A layout says how large the part of a board is and where in it the array of logical blocks, the
data region, begins: block 0 lies at `regionBase`, and the region ends with the part. The address
functions trap where an address does not fit a word; on a valid layout with a window inside the
address space they do not.
-/

namespace NorDisk

/-- Size, data region and clocking of one board. -/
structure Layout where
  name : String
  /-- Bytes in the part. -/
  flashBytes : UInt32
  /-- Offset of block 0 in the part. -/
  regionBase : UInt32
  /-- System clock, in Hz. -/
  clockHz : UInt32
  /-- Family of the update records that the board accepts. -/
  family : UInt32
  /-- Image that an update boots into. -/
  bootImage : UInt8
deriving DecidableEq, Repr

namespace Layout

/-- Region and part start and end on sector boundaries, and the region is not empty. -/
def Valid (l : Layout) : Prop :=
  l.regionBase % sectorBytes = 0 ∧ l.flashBytes % sectorBytes = 0 ∧ l.regionBase < l.flashBytes

instance (l : Layout) : Decidable l.Valid :=
  inferInstanceAs (Decidable (_ ∧ _ ∧ _))

/-- Check the layout; the first value that breaks a rule is named. -/
def validate (l : Layout) : Except FlashError Unit :=
  if l.regionBase % sectorBytes ≠ 0 then .error (.misaligned l.regionBase)
  else if l.flashBytes % sectorBytes ≠ 0 ∨ l.flashBytes ≤ l.regionBase then
    .error (.misaligned l.flashBytes)
  else .ok ()

theorem validate_eq_ok_iff (l : Layout) : l.validate = .ok () ↔ l.Valid := by
  unfold validate Valid
  split
  · simp_all
  · split
    · rename_i h
      rcases h with h | h <;> simp_all [← UInt32.not_lt]
    · simp_all [not_or, UInt32.not_le]

/-- Address of block 0 in the read window. -/
def mappedBase (l : Layout) : Except Trap UInt32 := Checked.add windowBase l.regionBase

/-- Bytes in the data region. -/
def regionBytes (l : Layout) : Except Trap UInt32 := Checked.sub l.flashBytes l.regionBase

/-- Blocks in the data region. -/
def blockCount (l : Layout) : Except Trap UInt32 := do
  return (← l.regionBytes) / blockBytes

/-- Offset of block `lba` in the part. -/
def offsetOf (l : Layout) (lba : UInt32) : Except Trap UInt32 := do
  Checked.add l.regionBase (← Checked.mul lba blockBytes)

/-- Address of block `lba` in the read window. -/
def mappedOf (l : Layout) (lba : UInt32) : Except Trap UInt32 := do
  Checked.add (← l.mappedBase) (← Checked.mul lba blockBytes)

/-- The block at a window address, if the address is that of a block of the region. -/
def blockAt? (l : Layout) (addr : UInt32) : Except Trap (Option UInt32) := do
  let base ← l.mappedBase
  if addr < base then return none
  let offset := addr - base
  if offset % blockBytes ≠ 0 then return none
  if offset ≥ (← l.regionBytes) then return none
  return some (offset / blockBytes)

end Layout

/-- Family of the update records for the supported boards. -/
def boardFamily : UInt32 := 0x1C0BA4B1

/-- The supported boards. -/
inductive Board where
  | orangeCrabR01
  | orangeCrabR02
  | orangeCart
deriving DecidableEq, Repr

namespace Board

/-- All boards, in the order in which they are listed. -/
def all : List Board := [orangeCrabR01, orangeCrabR02, orangeCart]

/-- The layout that all boards share but for name and size. -/
def sharedLayout (name : String) (mebibytes : UInt32) : Layout where
  name := name
  flashBytes := mebibytes * 1024 * 1024
  regionBase := 0x80000
  clockHz := 12000000
  family := boardFamily
  bootImage := 0

/-- The layout of a board. -/
def layout : Board → Layout
  | orangeCrabR01 => sharedLayout "orangecrab-r0.1" 1
  | orangeCrabR02 => sharedLayout "orangecrab-r0.2" 16
  | orangeCart => sharedLayout "orangecart" 16

/-- The board of a given name. -/
def ofName? (name : String) : Option Board := all.find? (·.layout.name == name)

theorem layout_valid (b : Board) : b.layout.Valid := by cases b <;> decide

end Board

end NorDisk
