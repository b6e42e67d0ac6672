/-!
# Shortest decimal text of a double

A finite double is m · 2^q. The reals that round to it form an interval around it, ends included
when m is even. `shortest` walks the decimal grids 10^e from coarse to fine and takes the first
with a point in the interval; of the two neighbours of the value on that grid it takes the nearer
one, and the upper one of an exact tie. `ofFloat` writes the result with a decimal point and never
with an exponent.
-/

namespace NorDisk.Decimal

/-- A positive double m · 2^q with the ends of its rounding interval, all in units of 2^(q - 2). -/
structure Interval where
  low : Nat
  value : Nat
  high : Nat
  closed : Bool
  exponent : Int
deriving DecidableEq, Repr

/-- The interval of the positive double with this biased exponent and fraction. -/
def Interval.ofParts (biased fraction : Nat) : Interval :=
  let m := if biased = 0 then fraction else (1 <<< 52) + fraction
  let q : Int := if biased = 0 then -1074 else biased - 1075
  { -- below a power of two the doubles lie twice as dense
    low := if biased ≠ 0 ∧ fraction = 0 then 4 * m - 1 else 4 * m - 2
    value := 4 * m
    high := 4 * m + 2
    closed := m % 2 = 0
    exponent := q - 2 }

namespace Interval

/-- What a point d · 10^e of a grid is multiplied by to compare it with the interval. -/
def pointScale (i : Interval) (e : Int) : Nat := Nat.pow 10 e.toNat <<< (-i.exponent).toNat

/-- What the interval is multiplied by to compare it with points of a grid. -/
def scale (i : Interval) (e : Int) : Nat := Nat.pow 10 (-e).toNat <<< i.exponent.toNat

/-- Does d · 10^e lie in the interval? -/
def holds (i : Interval) (e : Int) (d : Nat) : Bool :=
  let point := d * i.pointScale e
  let low := i.low * i.scale e
  let high := i.high * i.scale e
  if i.closed then low ≤ point && point ≤ high else low < point && point < high

/-- The neighbour of the value on the grid 10^e that lies in the interval, if any; the nearer one
if both do. -/
def nearest? (i : Interval) (e : Int) : Option Nat :=
  let value := i.value * i.scale e
  let down := value / i.pointScale e
  let up := down + 1
  match i.holds e down, i.holds e up with
  | true, true => some (if 2 * value < (down + up) * i.pointScale e then down else up)
  | true, false => some down
  | false, true => some up
  | false, false => none

/-- The first of `n` grids with a point in the interval, from 10^e on to finer ones. -/
def search (i : Interval) : Nat → Int → Nat × Int
  | 0, e => (0, e)
  | n + 1, e =>
    match i.nearest? e with
    | some d => (d, e)
    | none => i.search n (e - 1)

/-- Exponent of a power of ten above the value. -/
def top (i : Interval) : Int :=
  let bits : Int := i.value.log2 + 1 + i.exponent
  (if 0 ≤ bits then bits / 3 else bits / 4) + 1

/-- The shortest decimal d · 10^e that reads back, as (d, e). -/
def shortest (i : Interval) : Nat × Int :=
  i.search ((i.top - min i.exponent 0).toNat + 1) i.top

end Interval

/-- The digits of d · 10^e with a decimal point where one is needed. -/
def positional (d : Nat) (e : Int) : List Char :=
  let digits := Nat.toDigits 10 d
  let places := (-e).toNat
  if 0 ≤ e then digits ++ List.replicate e.toNat '0'
  else if places < digits.length then
    digits.take (digits.length - places) ++ '.' :: digits.drop (digits.length - places)
  else '0' :: '.' :: (List.replicate (places - digits.length) '0' ++ digits)

def ofFloat (x : Float) : String :=
  let bits := x.toBits.toNat
  let negative := bits >>> 63 = 1
  let biased := bits >>> 52 % 2048
  let fraction := bits % (1 <<< 52)
  let size :=
    if biased = 2047 then (if fraction = 0 then "inf" else "NaN").toList
    else if biased = 0 ∧ fraction = 0 then ['0']
    else
      let (d, e) := (Interval.ofParts biased fraction).shortest
      positional d e
  String.ofList (if negative ∧ ¬(biased = 2047 ∧ fraction ≠ 0) then '-' :: size else size)

end NorDisk.Decimal
