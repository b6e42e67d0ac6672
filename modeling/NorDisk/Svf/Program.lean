import NorDisk.Svf.Statement

/-!
# Programming a part through a serial vector file

The file opens the bridge from the test chain of the board to its flash part, checks the identity of
the part, erases and programs the image page by page, reads it back with a check on every byte, and
closes the bridge. A block of the part is erased before the first page in it.
-/

namespace NorDisk.Svf

/-- A flash part and its command set. -/
structure Part where
  identity : UInt32 := 0xEF4018
  writeDisable : UInt8 := Opcode.writeDisable
  readStatus : UInt8 := Opcode.readStatus
  writeEnable : UInt8 := Opcode.writeEnable
  blockErase : UInt8 := Opcode.blockErase
  /-- Bytes that one erase clears. -/
  blockBytes : UInt32 := 65536
  /-- Seconds that an erase takes. -/
  eraseSeconds : Float := 2.0
  pageProgram : UInt8 := Opcode.pageProgram
  /-- Bytes that are programmed at once. -/
  pageBytes : Nat := 256
  /-- Seconds that programming a page takes. -/
  programSeconds : Float := 0.003
  fastRead : UInt8 := Opcode.fastRead
  readIdentity : UInt8 := Opcode.identity

namespace Part

variable (p : Part)

/-- Pages of an image of `size` bytes. -/
def pageCount (size : Nat) : Nat := (size + p.pageBytes - 1) / p.pageBytes

/-- Page `i` of an image; the last one may be short. -/
def page (image : ByteArray) (i : Nat) : List UInt8 :=
  Bytes.slice image (i * p.pageBytes) p.pageBytes

/-- Offset in the part of page `i` of an image at `offset`. -/
def pageOffset (offset : UInt32) (i : Nat) : UInt32 := offset + (i * p.pageBytes).toUInt32

/-- Check that the part is idle. -/
def checkIdle : Statement := .expecting [p.readStatus, 0] [0, 0] (some [0, 1]) 1

/-- Check the identity of the part. -/
def checkIdentity : Statement :=
  .expecting [p.readIdentity, 0, 0, 0] (Word.toBE p.identity) none 1

/-- Does page `i` lie in another block than the page before it? -/
def startsBlock (offset : UInt32) (i : Nat) : Bool :=
  i = 0 || p.pageOffset offset i / p.blockBytes ≠ p.pageOffset offset (i - 1) / p.blockBytes

/-- Issue a command that changes the part and see it through. -/
def modify (command : List UInt8) (seconds : Float) : List Statement :=
  [.scan [p.writeEnable], .scan command, .idle seconds, p.checkIdle]

/-- Bring page `i` to the part. -/
def writePage (image : ByteArray) (offset : UInt32) (i : Nat) : List Statement :=
  let start := p.pageOffset offset i
  let program :=
    p.modify (addressCommand p.pageProgram start ++ p.page image i) p.programSeconds
  if p.startsBlock offset i then
    p.modify (addressCommand p.blockErase start) p.eraseSeconds ++ program
  else program

/-- Read page `i` back; opcode, address and a dummy byte come before the data. -/
def verifyPage (image : ByteArray) (offset : UInt32) (i : Nat) : Statement :=
  let page := p.page image i
  let command := addressCommand p.fastRead (p.pageOffset offset i) ++ [0]
  .expecting (command ++ List.replicate page.length 0)
    (List.replicate command.length 0 ++ page) none 5

/-- The statements before the first page. -/
def prologue : List Statement := [p.checkIdentity, p.checkIdle]

/-- Pages that are written before an address behind a page leaves the word, that page included. -/
def pagesUntilOverflow (offset : UInt32) : Nat := (0xFFFFFFFF - offset.toNat) / p.pageBytes + 1

/-- The statements that program an image at an offset, and why they stop short, if they do: pages
need a length, blocks too as soon as there is a page, and the end of the image needs an address. -/
def program (image : ByteArray) (offset : UInt32) : List Statement × Option Trap :=
  if p.pageBytes = 0 then (p.prologue, some .emptyPiece)
  else if p.blockBytes = 0 ∧ image.size ≠ 0 then (p.prologue, some .divisionByZero)
  else if 0x100000000 ≤ offset.toNat + image.size then
    let pages := List.range (p.pagesUntilOverflow offset)
    (p.prologue ++ pages.flatMap (p.writePage image offset), some .overflow)
  else
    let pages := List.range (p.pageCount image.size)
    (p.prologue ++ pages.flatMap (p.writePage image offset) ++ [.scan [p.writeDisable]] ++
      pages.map (p.verifyPage image offset), none)

end Part

/-- The opening of a file, before the identity code of the programmable chip. -/
def openingStart : String :=
"
STATE RESET;
HDR   0;
HIR   0;
TDR   0;
TIR   0;
ENDDR DRPAUSE;
ENDIR IRPAUSE;
STATE IDLE;

SIR   8   TDI (E0);
SDR   32  TDI (00000000) TDO ("

/-- The opening of a file, after the identity code. -/
def openingEnd : String :=
") MASK (FFFFFFFF);
SIR   8   TDI (1C);
SDR   510 TDI (3FFFFFFFFFFFFFFFFFFFFFFFFFFFFFFFFFFFFFFFFFFFFFFFFFFFFFFFFFFFFFFF
      FFFFFFFFFFFFFFFFFFFFFFFFFFFFFFFFFFFFFFFFFFFFFFFFFFFFFFFFFFFFFFFF);

// Enter Programming mode
SIR   8   TDI (C6);
SDR   8   TDI (00);
RUNTEST IDLE 2 TCK 1.00E-02 SEC;

// Erase
SIR   8   TDI (0E);
SDR   8   TDI (01);
RUNTEST IDLE 2 TCK 2.0E-1 SEC;

// Read STATUS
SIR   8   TDI (3C);
SDR   32  TDI (00000000) TDO  (00000000) MASK (0000B000);

// Exit Programming mode
SIR   8   TDI (26);
RUNTEST IDLE 2 TCK 1.00E-02 SEC;

// BYPASS
SIR   8   TDI (FF);
STATE IDLE;
RUNTEST 32 TCK;
RUNTEST 2.00E-2 SEC;
// Enter SPI mode
ENDDR IDLE;
SIR   8   TDI (3A);
SDR   16  TDI (68FE);
RUNTEST 32 TCK;
RUNTEST 2.00E-2 SEC;
SDR   64  TDI (FFFFFFFFFFFFFFFF);
SDR   2   TDI (3);
SDR   8   TDI (FF);

"

/-- Check the identity code of the programmable chip, erase it and open the bridge to the part. -/
def opening (idcode : UInt32) : String := openingStart ++ Hex.upper 8 idcode.toNat ++ openingEnd

/-- Close the bridge. -/
def closing : String :=
"
SIR   8   TDI (79);
RUNTEST IDLE 32 TCK;

"

/-- The statements of a program, unless it stops short. -/
def completed (program : List Statement × Option Trap) : Except Trap (List Statement) :=
  match program with
  | (statements, none) => .ok statements
  | (_, some cause) => .error cause

/-- The text of a whole file around the text of a program. -/
def enclose (idcode : UInt32) (programText : String) : String :=
  opening idcode ++ programText ++ closing

/-- The word after the first E2 00 00 00. -/
def idcodeIn? : List UInt8 → Option UInt32
  | [] => none
  | b :: rest =>
    if b = 0xE2 ∧ rest.take 3 = [0, 0, 0] then
      let code := (rest.drop 3).take 4
      if code.length = 4 then some (Word.ofBE code) else none
    else idcodeIn? rest

/-- The identity code in the first 256 bytes of a bitstream. -/
def findIdcode (image : ByteArray) : Option UInt32 := idcodeIn? (Bytes.slice image 0 256)

end NorDisk.Svf
