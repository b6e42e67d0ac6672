import NorDisk.Controller

/-!
# A NOR part at the level of controller primitives

The part keeps its memory, mode and busy flag, logs every primitive it receives and counts the
misuse of its rules. Erasing sets the bytes of a sector, programming can only clear bits, and a
command that arrives in the wrong mode or while the part is busy changes nothing but a counter.
`NorPart.byteAt` is the view of the memory: an address past its end reads as erased. The lemmas
`byteAt_put`, `byteAt_erase`, `byteAt_patch` and `byteAt_blank` say what each operation does to it.
-/

namespace NorDisk

namespace Memory

/-- Replace byte `i`, if there is one. -/
def put (memory : ByteArray) (i : Nat) (b : UInt8) : ByteArray :=
  if h : i < memory.size then memory.set i b h else memory

/-- Byte `i`; past the end of the memory all bytes are erased. -/
def byteAt (memory : ByteArray) (i : Nat) : UInt8 :=
  if h : i < memory.size then memory[i] else erasedByte

/-- Set `n` bytes from `start` on to the erased value. -/
def erase (start : Nat) : Nat → ByteArray → ByteArray
  | 0, memory => memory
  | n + 1, memory => erase start n (put memory (start + n) erasedByte)

/-- Clear bits of a page from a column on; after its last column comes its first. -/
def program (page : Nat) : Nat → List UInt8 → ByteArray → ByteArray
  | _, [], memory => memory
  | column, b :: rest, memory =>
    let cell := page + column
    program page ((column + 1) % 256) rest (put memory cell (byteAt memory cell &&& b))

/-- Overwrite bytes from an index on. -/
def patch : Nat → List UInt8 → ByteArray → ByteArray
  | _, [], memory => memory
  | i, b :: rest, memory => patch (i + 1) rest (put memory i b)

/-- The `n` bytes from `start` on. -/
def read (memory : ByteArray) (start n : Nat) : List UInt8 :=
  (List.range n).map fun i => byteAt memory (start + i)

/-- Add `n` erased bytes at the end. -/
def grow : Nat → ByteArray → ByteArray
  | 0, memory => memory
  | n + 1, memory => grow n (memory.push erasedByte)

/-- An erased memory of `n` bytes. -/
def blank (n : Nat) : ByteArray := grow n (ByteArray.emptyWithCapacity n)

@[simp] theorem length_read (memory : ByteArray) (start n : Nat) :
    (read memory start n).length = n := by simp [read]

@[simp] theorem size_put (memory : ByteArray) (i : Nat) (b : UInt8) :
    (put memory i b).size = memory.size := by
  unfold put
  split
  · exact Array.size_set _
  · rfl

/-- Replacing a byte changes that byte alone. -/
theorem byteAt_put (memory : ByteArray) (i j : Nat) (b : UInt8) :
    byteAt (put memory i b) j = if i = j ∧ i < memory.size then b else byteAt memory j := by
  unfold put
  split
  · rename_i h
    have hs : (memory.set i b h).size = memory.size := Array.size_set _
    simp only [byteAt, hs, h, and_true]
    split
    · exact Array.getElem_set _ _
    · rw [if_neg (by omega)]
  · rename_i h
    rw [if_neg fun hi => h hi.2]

@[simp] theorem size_erase (start n : Nat) (memory : ByteArray) :
    (erase start n memory).size = memory.size := by
  induction n generalizing memory with
  | zero => rfl
  | succ n ih => simp [erase, ih]

/-- Erasing sets the bytes of the range and keeps all others. -/
theorem byteAt_erase (start n : Nat) (memory : ByteArray) (j : Nat) :
    byteAt (erase start n memory) j =
      if start ≤ j ∧ j < start + n then erasedByte else byteAt memory j := by
  induction n generalizing memory with
  | zero => rw [if_neg (by omega)]; rfl
  | succ n ih =>
    rw [erase, ih, byteAt_put]
    by_cases hj : j < memory.size
    · grind
    · -- Past the end there is nothing to erase, and the byte reads as erased anyway.
      have : byteAt memory j = erasedByte := by simp [byteAt, hj]
      grind

@[simp] theorem size_program (page column : Nat) (data : List UInt8) (memory : ByteArray) :
    (program page column data memory).size = memory.size := by
  induction data generalizing column memory with
  | nil => rfl
  | cons b rest ih => simp [program, ih]

@[simp] theorem size_patch (i : Nat) (data : List UInt8) (memory : ByteArray) :
    (patch i data memory).size = memory.size := by
  induction data generalizing i memory with
  | nil => rfl
  | cons b rest ih => simp [patch, ih]

/-- Patching replaces the bytes of the range that the memory has. -/
theorem byteAt_patch (i : Nat) (data : List UInt8) (memory : ByteArray) (j : Nat) :
    byteAt (patch i data memory) j =
      if i ≤ j ∧ j < i + data.length ∧ j < memory.size then data.getD (j - i) 0
      else byteAt memory j := by
  induction data generalizing i memory with
  | nil => rw [if_neg (by rw [List.length_nil]; omega)]; rfl
  | cons b rest ih =>
    rw [patch, ih, byteAt_put, size_put]
    by_cases h : i < j
    · obtain ⟨k, rfl⟩ := Nat.exists_eq_add_of_lt h
      rw [show i + k + 1 - (i + 1) = k by omega, show i + k + 1 - i = k + 1 by omega]
      grind
    · grind

theorem size_grow (n : Nat) (memory : ByteArray) : (grow n memory).size = memory.size + n := by
  induction n generalizing memory with
  | zero => rfl
  | succ n ih => rw [grow, ih, ByteArray.size_push]; omega

@[simp] theorem size_blank (n : Nat) : (blank n).size = n := by
  rw [blank, size_grow]
  exact Nat.zero_add n

theorem byteAt_push_erased (memory : ByteArray) (j : Nat) :
    byteAt (memory.push erasedByte) j = byteAt memory j := by
  simp only [byteAt, ByteArray.size_push]
  by_cases h : j < memory.size
  · simp only [h, dite_true, show j < memory.size + 1 by omega]
    exact Array.getElem_push_lt h
  · simp only [h, dite_false]
    split
    · obtain rfl : j = memory.size := by omega
      exact Array.getElem_push_eq
    · rfl

/-- An erased memory reads as erased everywhere. -/
@[simp] theorem byteAt_blank (n j : Nat) : byteAt (blank n) j = erasedByte := by
  suffices h : ∀ (memory : ByteArray), byteAt (grow n memory) j = byteAt memory j by
    rw [blank, h]
    rfl
  induction n with
  | zero => intro memory; rfl
  | succ n ih => intro memory; rw [grow, ih, byteAt_push_erased]

end Memory

/-- A primitive as the part logs it. -/
inductive Primitive where
  | enterMapped
  | enterCommand
  | erase (offset : UInt32)
  | program (offset : UInt32) (len : Nat)
  | read (addr : UInt32) (len : Nat)
deriving DecidableEq, Repr

/-- Is the primitive a command? -/
def Primitive.isCommand : Primitive → Bool
  | erase _ => true
  | program .. => true
  | _ => false

/-- Counts of broken rules. -/
structure Misuse where
  /-- Commands while the window was being served. -/
  commandWhileMapped : Nat := 0
  /-- Window reads while commands were being served. -/
  readWhileCommand : Nat := 0
  /-- Commands while an earlier one was in flight. -/
  commandWhileBusy : Nat := 0
deriving DecidableEq, Repr

/-- All broken rules. -/
def Misuse.total (m : Misuse) : Nat :=
  m.commandWhileMapped + m.readWhileCommand + m.commandWhileBusy

/-- A NOR part with its log and its counters. -/
structure NorPart where
  memory : ByteArray
  mode : Mode := .mapped
  /-- Polls that answer busy after a command. -/
  busyPolls : Nat := 1
  /-- Polls that will still answer busy. -/
  busyLeft : Nat := 0
  /-- Is the busy flag held? -/
  stalled : Bool := false
  /-- The first primitives since the log was cleared. -/
  log : Array Primitive := #[]
  /-- Primitives that came after the log was full. -/
  dropped : Nat := 0
  misuse : Misuse := {}
  /-- Accepted erases. -/
  erases : Nat := 0
  /-- Accepted programs. -/
  programs : Nat := 0

namespace NorPart

/-- Primitives that the log holds. -/
def logCapacity : Nat := 256

/-- A fresh part of `size` erased bytes. -/
def blank (size : Nat) : NorPart := { memory := Memory.blank size }

/-- The byte at an offset. -/
def byteAt (p : NorPart) (i : Nat) : UInt8 := Memory.byteAt p.memory i

/-- Look at memory past the controller; a range that leaves the memory traps. -/
def peek (offset len : Nat) (p : NorPart) : Except Trap (List UInt8) :=
  if offset + len ≤ p.memory.size then .ok (Memory.read p.memory offset len)
  else .error .outOfBounds

/-- Overwrite memory past the controller; a range that leaves the memory traps. -/
def poke (offset : Nat) (data : List UInt8) (p : NorPart) : Except Trap NorPart :=
  if offset + data.length ≤ p.memory.size then
    .ok { p with memory := Memory.patch offset data p.memory }
  else .error .outOfBounds

/-- Log a primitive. -/
def record (primitive : Primitive) (p : NorPart) : NorPart :=
  if p.log.size < logCapacity then { p with log := p.log.push primitive }
  else { p with dropped := p.dropped + 1 }

/-- Forget the log. -/
def clearLog (p : NorPart) : NorPart := { p with log := #[], dropped := 0 }

/-- The logged commands, in order. -/
def commands (p : NorPart) : List Primitive := p.log.toList.filter (·.isCommand)

/-- Take a command, or count why it is ignored. -/
def accept (p : NorPart) : Bool × NorPart :=
  if p.mode ≠ .command then
    (false, { p with misuse.commandWhileMapped := p.misuse.commandWhileMapped + 1 })
  else if p.stalled || p.busyLeft > 0 then
    (false, { p with misuse.commandWhileBusy := p.misuse.commandWhileBusy + 1 })
  else (true, { p with busyLeft := p.busyPolls })

/-- Erase the sector that holds an offset. -/
def beginErase (offset : UInt32) (p : NorPart) : NorPart :=
  match (p.record (.erase offset)).accept with
  | (false, p) => p
  | (true, p) =>
    { p with
      memory := Memory.erase (sectorBase offset).toNat sectorBytes.toNat p.memory
      erases := p.erases + 1 }

/-- Program up to a page of bytes at an offset; addresses wrap in the page. -/
def beginProgram (offset : UInt32) (data : List UInt8) (p : NorPart) : NorPart :=
  match (p.record (.program offset data.length)).accept with
  | (false, p) => p
  | (true, p) =>
    let column := offset.toNat % 256
    { p with
      memory := Memory.program (offset.toNat - column) column (data.take 256) p.memory
      programs := p.programs + 1 }

/-- Poll the busy flag. -/
def isBusy (p : NorPart) : Bool × NorPart :=
  if p.stalled then (true, p)
  else if p.busyLeft > 0 then (true, { p with busyLeft := p.busyLeft - 1 })
  else (false, p)

/-- Read the window; while commands are being served it reads as zeros. -/
def readMapped (addr : UInt32) (len : Nat) (p : NorPart) : List UInt8 × NorPart :=
  let p := p.record (.read addr len)
  if p.mode ≠ .mapped then
    (List.replicate len 0, { p with misuse.readWhileCommand := p.misuse.readWhileCommand + 1 })
  else (Memory.read p.memory (addr - windowBase).toNat len, p)

theorem length_readMapped (addr : UInt32) (len : Nat) (p : NorPart) :
    (readMapped addr len p).1.length = len := by
  simp only [readMapped]
  split <;> simp

instance : Controller NorPart where
  enterMapped p := { p.record .enterMapped with mode := .mapped }
  enterCommand p := { p.record .enterCommand with mode := .command }
  beginErase := beginErase
  beginProgram := beginProgram
  isBusy := isBusy
  readMapped := readMapped
  length_readMapped := length_readMapped

end NorPart

end NorDisk
