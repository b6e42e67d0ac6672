/-!
# Hexadecimal text

Numbers in hexadecimal digits of either case, padded with zeros to a least width.
-/

namespace NorDisk.Hex

/-- The digit of a value below sixteen, in lower case. -/
def digit (n : Nat) : Char := Nat.digitChar n

/-- The lower-case digits of `n`, at least `width` of them. -/
def lowerChars (width n : Nat) : List Char := List.leftpad width '0' (Nat.toDigits 16 n)

/-- The lower-case digits of `n` as text. -/
def lower (width n : Nat) : String := String.ofList (lowerChars width n)

/-- The upper-case digits of `n` as text. -/
def upper (width n : Nat) : String := String.ofList ((lowerChars width n).map Char.toUpper)

/-- A word as `0x` and eight lower-case digits. -/
def word (w : UInt32) : String := "0x" ++ lower 8 w.toNat

/-- The two upper-case digits of a byte. -/
def upperByte (b : UInt8) : List Char :=
  [(digit (b.toNat / 16)).toUpper, (digit (b.toNat % 16)).toUpper]

/-- The two lower-case digits of a byte. -/
def lowerByte (b : UInt8) : List Char := [digit (b.toNat / 16), digit (b.toNat % 16)]

/-- A byte list in lower-case digits, two a byte. -/
def ofBytes (bytes : List UInt8) : String := String.ofList (bytes.flatMap lowerByte)

example : word 0xAB = "0x000000ab" := by decide +kernel

end NorDisk.Hex
