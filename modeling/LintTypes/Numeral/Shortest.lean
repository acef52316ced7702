import LintTypes.Numeral.Binary64

/-!
# Shortest decimals

The shortest decimal that a binary64 number can be read back from, and its text.

Every decimal that is nearer to the number than to its neighbours reads back as the number, and so
does one half-way to a neighbour if the significand is even. Among these decimals the one with the
fewest digits is taken, and of two such ones the nearer; a tie goes to the even digit. Its digits
lie on the coarsest grid of powers of ten that has a point in that interval, next to the number.
-/

namespace LintTypes.Binary64

/-- A positive decimal: `digits * 10 ^ exponent`. -/
structure Decimal where
  /-- The digits as a natural number. -/
  digits : Nat
  /-- The power of ten of the last digit. -/
  exponent : Int
deriving DecidableEq, Repr

/-- Bounds around a positive number, as multiples of `2 ^ (exponent - 2)`: the points half-way to
its neighbours, and whether they still read back as the number. -/
structure Interval where
  /-- Half-way to the next smaller number. -/
  low : Nat
  /-- The number itself. -/
  mid : Nat
  /-- Half-way to the next greater number. -/
  high : Nat
  /-- Whether the ends belong to the interval. -/
  closed : Bool
deriving DecidableEq, Repr

/-- The interval of a positive number. Below a power of two the neighbours are nearer. -/
def interval (x : Binary64) : Interval where
  low := 4 * x.significand - (if x.significand = minNormal ∧ minExponent < x.exponent then 1 else 2)
  mid := 4 * x.significand
  high := 4 * x.significand + 2
  closed := x.significand % 2 = 0

/-- Whether `num` in units of `1 / den` lies in the interval, whose bounds count units of
`scaleNum / den`. -/
def Interval.contains (i : Interval) (num scaleNum : Nat) : Bool :=
  if i.closed then i.low * scaleNum ≤ num && num ≤ i.high * scaleNum
  else i.low * scaleNum < num && num < i.high * scaleNum

/-- The point of the grid of multiples of `10 ^ power` that stands for `x`: of the two next to `x`,
one in the interval, and the nearer one if both are. -/
def onGrid? (x : Binary64) (power : Int) : Option Decimal :=
  let i := x.interval
  -- Both the bounds and the grid points are counted in units of one common fraction.
  let unit := Nat.pow 2 (x.exponent - 2).toNat * Nat.pow 10 (-power).toNat
  let grid := Nat.pow 2 (2 - x.exponent).toNat * Nat.pow 10 power.toNat
  let below := i.mid * unit / grid
  let above := below + 1
  let distanceBelow := i.mid * unit - below * grid
  let distanceAbove := above * grid - i.mid * unit
  match i.contains (below * grid) unit, i.contains (above * grid) unit with
  | true, true =>
    if distanceBelow < distanceAbove ∨ (distanceBelow = distanceAbove ∧ below % 2 = 0) then
      some ⟨below, power⟩
    else some ⟨above, power⟩
  | true, false => some ⟨below, power⟩
  | false, true => some ⟨above, power⟩
  | false, false => none

/-- A decimal without trailing zeros, of the same value. -/
def Decimal.strip (d : Decimal) : Decimal :=
  if _divisible : d.digits % 10 = 0 ∧ d.digits ≠ 0 then
    strip ⟨d.digits / 10, d.exponent + 1⟩
  else d
termination_by d.digits
decreasing_by omega

/-- A power of ten above the number: the grids are searched from here on downwards. -/
def topPower (x : Binary64) : Int :=
  ((x.exponent + x.significand.log2 + 1) * 30103) / 100000 + 1

/-- The shortest decimal of a positive number. Twenty grids are enough: the finest is finer than the
interval. -/
def shortest (x : Binary64) : Decimal :=
  let grids := (List.range 20).map fun n : Nat => x.topPower - n
  ((grids.findSome? x.onGrid?).getD ⟨0, 0⟩).strip

/-- The text of a decimal with the digits `text` and the power of ten `exponent` of its last one.
From 1e-5 up to 1e16 it is written with a point, else with a signed exponent behind the first
digit. -/
def decimalText (text : List Char) (exponent : Int) : List Char :=
  let leading : Int := text.length - 1 + exponent
  if -5 ≤ leading ∧ leading < 16 then
    if 0 ≤ exponent then text ++ List.replicate exponent.toNat '0' ++ ['.', '0']
    else if 0 ≤ leading then
      text.take (leading + 1).toNat ++ '.' :: text.drop (leading + 1).toNat
    else '0' :: '.' :: (List.replicate (-leading - 1).toNat '0' ++ text)
  else
    let fraction := match text.drop 1 with
      | [] => []
      | digits => '.' :: digits
    let sign := if leading < 0 then '-' else '+'
    text.take 1 ++ fraction ++ 'e' :: sign :: (toString leading.natAbs).toList

/-- The text of a number: its shortest decimal. -/
def text (x : Binary64) : List Char :=
  let magnitude :=
    if x.significand = 0 then ['0', '.', '0']
    else
      let d := x.shortest
      decimalText (toString d.digits).toList d.exponent
  if x.negative then '-' :: magnitude else magnitude

end LintTypes.Binary64
