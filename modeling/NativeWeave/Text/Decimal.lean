namespace NativeWeave

/-!
# Decimal texts of binary floating-point numbers

A floating-point number is shown by the fewest digits that read back as the same number, and of
several such digit strings by the one nearest to the exact value, the larger in magnitude if two
are.  Digits are written out positionally, however large or small the number.  Everything is
computed in exact integer arithmetic from the bits of the number.
-/

namespace Decimal

/-- A power of two. -/
def twoTo (exponent : Nat) : Nat :=
  Nat.pow 2 exponent

/-- A power of ten. -/
def tenTo (exponent : Nat) : Nat :=
  Nat.pow 10 exponent

/-- The layout of a binary format: the widths of its fraction and of its exponent field. -/
structure Layout where
  fractionBits : Nat
  exponentBits : Nat
deriving DecidableEq, Repr

def single : Layout := ⟨23, 8⟩
def double : Layout := ⟨52, 11⟩

/-- What the bits of a number say. -/
inductive Reading
  | nan
  | infinite (negative : Bool)
  /-- The number is `significand` times two to the power `exponent`.  `narrow` says that the next
  smaller number is only half as far away as the next larger one. -/
  | finite (negative : Bool) (significand : Nat) (exponent : Int) (narrow : Bool)
deriving DecidableEq, Repr

/-- Take the bits of a number apart. -/
def Layout.read (layout : Layout) (bits : Nat) : Reading :=
  let fraction := bits % twoTo layout.fractionBits
  let field := bits / twoTo layout.fractionBits % twoTo layout.exponentBits
  let negative := bits / twoTo (layout.fractionBits + layout.exponentBits) % 2 == 1
  let bias : Int := (twoTo (layout.exponentBits - 1) : Int) - 1
  let lowest : Int := 1 - bias - layout.fractionBits
  if field = twoTo layout.exponentBits - 1 then
    if fraction = 0 then .infinite negative else .nan
  else if field = 0 then
    .finite negative fraction lowest false
  else
    .finite negative (fraction + twoTo layout.fractionBits) (lowest + (field - 1))
      (fraction = 0 ∧ 1 < field)

/-- A positive rational number and the interval of the rationals that round to it, all three over
one denominator.  The ends belong to the interval when `closed` holds. -/
structure Interval where
  low : Nat
  value : Nat
  high : Nat
  denominator : Nat
  closed : Bool
deriving DecidableEq, Repr

/-- The interval of the rationals that round to `significand · 2 ^ exponent`: half-way to the
neighbours, ends included when the significand is even. -/
def interval (significand : Nat) (exponent : Int) (narrow : Bool) : Interval :=
  let scale := twoTo (exponent - 2).toNat
  { low := (4 * significand - if narrow then 1 else 2) * scale
    value := 4 * significand * scale
    high := (4 * significand + 2) * scale
    denominator := twoTo (2 - exponent).toNat
    closed := significand % 2 == 0 }

/-- The interval measured in units of ten to the given power. -/
def Interval.inUnits (range : Interval) (power : Int) : Interval :=
  let finer := tenTo (-power).toNat
  { range with
    low := range.low * finer
    value := range.value * finer
    high := range.high * finer
    denominator := range.denominator * tenTo power.toNat }

/-- A whole number of units lies in the interval. -/
def Interval.contains (range : Interval) (count : Nat) : Bool :=
  let point := count * range.denominator
  if range.closed then
    range.low ≤ point && point ≤ range.high
  else
    range.low < point && point < range.high

/-- The whole number of units in the interval that is nearest to its value, looked for among the
two neighbours of the value.  Of two that are equally near it is the larger one. -/
def Interval.nearest? (range : Interval) : Option Nat :=
  let below := range.value / range.denominator
  let above := below + 1
  match range.contains below, range.contains above with
  | false, false => none
  | true, false => some below
  | false, true => some above
  | true, true =>
    if 2 * (range.value % range.denominator) < range.denominator then some below else some above

/-- Digits as a whole number and the power of ten of its last digit.  Powers are tried from
`power` downwards, `tries` of them. -/
def shortestFrom (range : Interval) : (tries : Nat) → (power : Int) → Nat × Int
  | 0, power => (0, power)
  | tries + 1, power =>
    match (range.inUnits power).nearest? with
    | some count => (count, power)
    | none => shortestFrom range tries (power - 1)

/-- The decimal digits of a number. -/
def digits (value : Nat) : List Char :=
  Nat.toDigits 10 value

/-- Write a whole number times a power of ten without an exponent. -/
def positional (count : Nat) (power : Int) : List Char :=
  let shown := digits count
  if 0 ≤ power then
    shown ++ List.replicate power.toNat '0'
  else
    let places := (-power).toNat
    if places < shown.length then
      shown.take (shown.length - places) ++ '.' :: shown.drop (shown.length - places)
    else
      '0' :: '.' :: List.replicate (places - shown.length) '0' ++ shown

/-- The text of a number in a binary format.  Powers of ten beyond the largest number of the
format are not tried. -/
def Layout.text (layout : Layout) (bits : Nat) : String :=
  match layout.read bits with
  | .nan => "NaN"
  | .infinite negative => if negative then "-inf" else "inf"
  | .finite negative significand exponent narrow =>
    let shown :=
      if significand = 0 then
        ['0']
      else
        let start := twoTo (layout.exponentBits - 1) / 3 + 1
        let (count, power) :=
          shortestFrom (interval significand exponent narrow) (4 * start) start
        positional count power
    String.ofList (if negative then '-' :: shown else shown)

end Decimal

/-- The decimal text of a single-precision number given by its bits. -/
def singleText (bits : UInt32) : String :=
  Decimal.single.text bits.toNat

/-- The decimal text of a double-precision number given by its bits. -/
def doubleText (bits : UInt64) : String :=
  Decimal.double.text bits.toNat

end NativeWeave
