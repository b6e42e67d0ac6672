/-!
# Numbers on the command line

A number is decimal, or hexadecimal after `0x` or `0X`. Underscores may stand anywhere after the
prefix, one plus sign may stand before the digits, and the value has to fit 32 bits. The first fault
from the left decides the error.
-/

namespace NorDisk.Tool

/-- Why a text is no number. -/
inductive NumberError where
  | empty
  | invalidDigit
  | tooLarge
deriving DecidableEq, Repr

def NumberError.message : NumberError → String
  | empty => "cannot parse integer from empty string"
  | invalidDigit => "invalid digit found in string"
  | tooLarge => "number too large to fit in target type"

/-- The value of an ASCII digit or letter, if it is a digit of the radix. -/
def digitValue? (radix : Nat) (c : Char) : Option Nat :=
  let value :=
    if c.isDigit then c.toNat - 48
    else if c.isLower then c.toNat - 97 + 10
    else if c.isUpper then c.toNat - 65 + 10
    else radix
  if value < radix then some value else none

def appendDigits (radix : Nat) : Nat → List Char → Except NumberError Nat
  | n, [] => .ok n
  | n, c :: rest =>
    match digitValue? radix c with
    | none => .error .invalidDigit
    | some d =>
      if n * radix + d < 0x100000000 then appendDigits radix (n * radix + d) rest
      else .error .tooLarge

/-- The number that digits spell, one plus sign allowed before them. -/
def readDigits (radix : Nat) : List Char → Except NumberError Nat
  | [] => .error .empty
  | ['+'] => .error .invalidDigit
  | '+' :: digits => appendDigits radix 0 digits
  | digits => appendDigits radix 0 digits

/-- The radix that a text announces, and what is left of it. -/
def splitRadix : List Char → Nat × List Char
  | '0' :: 'x' :: rest => (16, rest)
  | '0' :: 'X' :: rest => (16, rest)
  | text => (10, text)

def readNumber (text : List Char) : Except NumberError UInt32 :=
  let (radix, rest) := splitRadix text
  (readDigits radix (rest.filter (· ≠ '_'))).map Nat.toUInt32

end NorDisk.Tool
