import NorDisk.Decimal
import NorDisk.Hex
import NorDisk.SpiNor
import NorDisk.Svf.Wrap

/-!
# Statements of a serial vector file

Once the bridge to the flash part is open, one scan of the data register is one SPI transaction. A
scan shifts its hexadecimal field out from the right, least significant bit first, while a SPI part
wants its first byte first and the most significant bit of it first. So a field lists the bytes
last to first with the bits of each byte reversed. A checked scan compares what comes back, under a
mask.
-/

namespace NorDisk.Svf

def reverseByte (b : UInt8) : UInt8 :=
  (List.range 8).foldl (fun out i => out <<< 1 ||| (b >>> i.toUInt8 &&& 1)) 0

/-- The hexadecimal field that shifts out as `bytes`. -/
def field (bytes : List UInt8) : List Char :=
  bytes.reverse.flatMap fun b => Hex.upperByte (reverseByte b)

/-- A statement of the programming sequence. -/
inductive Statement where
  /-- Send bytes and ignore what comes back. -/
  | scan (data : List UInt8)
  /-- Send bytes and compare what comes back with `expected`, where `mask` has ones. There is a byte
  of the mask for each one that is expected, but these may be more or fewer than are sent. -/
  | check (data expected mask : List UInt8)
  | idle (seconds : Float)

namespace Statement

/-- The mask of `length` expected bytes: the first `ignore` of them do not count. -/
def maskBytes (mask : Option (List UInt8)) (ignore length : Nat) : List UInt8 :=
  List.replicate ignore 0 ++
    match mask with
    | some mask => (List.range' ignore (length - ignore)).map (mask.getD · 0)
    | none => List.replicate (length - ignore) 0xFF

/-- Send `data` and expect `expect` from byte `ignore` on, under `mask` if there is one; with
nothing to expect the scan is unchecked. -/
def expecting (data expect : List UInt8) (mask : Option (List UInt8)) (ignore : Nat) : Statement :=
  if expect.length ≤ ignore || data.isEmpty then scan data
  else check data expect (maskBytes mask ignore expect.length)

/-- Two fields brought to the length of the one that is sent: both are filled up with zeros, or both
are cut. Bytes are shifted out from the right, so this happens on the left. -/
def align (sent expected mask : List Char) : List Char × List Char :=
  if expected.length < sent.length then
    let pad := List.replicate (sent.length - expected.length) '0'
    (pad ++ expected, pad ++ mask)
  else (expected.drop (expected.length - sent.length), mask.drop (mask.length - sent.length))

/-- The words of a scan, up to its data field. -/
def scanWords (data : List UInt8) : List (List Char) :=
  ["SDR".toList, Nat.toDigits 10 (8 * data.length), "TDI".toList]

def parens (digits : List Char) : List Char := '(' :: digits ++ [')']

/-- The words of a statement. -/
def words : Statement → List (List Char)
  | scan data => scanWords data ++ [parens (field data) ++ [';']]
  | check data expected mask =>
    let sent := field data
    let (expected, mask) := align sent (field expected) (field mask)
    scanWords data ++ [parens sent, "TDO".toList, parens expected, "MASK".toList,
      parens mask ++ [';']]
  | idle seconds =>
    ["RUNTEST".toList, "IDLE".toList, (Decimal.ofFloat seconds).toList, "SEC;".toList]

def line (s : Statement) : List Char := List.intercalate [' '] s.words

/-- The text of a statement; a wait takes one line whatever its length. -/
def text : Statement → Except Trap String
  | s@(idle _) => .ok (String.ofList (s.line ++ ['\n']))
  | s => do return String.ofList ((← wrap s.line) ++ ['\n'])

end Statement

def render (statements : List Statement) : Except Trap String :=
  statements.foldlM (fun out s => return out ++ (← s.text)) ""

end NorDisk.Svf
