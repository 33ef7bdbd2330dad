import AvroBindings.Number.Binary64

/-!
# Shortest decimals

The decimal numeral that stands for a binary64 number: of all numerals that round to it the one
with the fewest digits, and of those the nearest to it.

## Main Definitions

* `Numeral` — the digits of a decimal numeral and the exponent of its first digit.
* `Binary64.shortest` — the numeral of a positive finite number.
* `Layout`, `Numeral.write` — how a numeral is set: positionally for some exponents, else with
  an exponent.

## Design Notes

The reals that round to a number form an interval around it, ends included exactly when the
significand is even.  If any point of a decimal grid lies in the interval, so does one of the
number's two neighbours on that grid.  So `shortest` walks from the coarsest grid to finer ones
and looks at two candidates on each, in exact integer arithmetic; seventeen digits always
suffice.  Everything is counted in quarters of the smallest step, because just below a power of
two the interval ends a quarter of a spacing away.
-/

namespace AvroBindings

/-- A decimal numeral `d.ddd × 10 ^ exponent`, its digits without trailing zeros. -/
structure Numeral where
  digits : List Char
  exponent : Int
deriving DecidableEq

namespace Binary64

/-- The number of quarter steps in one unit. -/
def quarters : Nat := Nat.pow 2 1076

/-- The reals that round to a positive finite number, in quarter steps, and whether the ends
belong to them. -/
structure Basin where
  low : Nat
  value : Nat
  high : Nat
  closed : Bool

/-- The basin of a positive finite number.  Below a power of two the numbers lie twice as
dense. -/
def basin (x : Binary64) : Basin :=
  let step := Nat.pow 2 x.scale
  let value := 4 * x.significand * step
  let below := if x.significand = Nat.pow 2 52 && x.scale != 0 then step else 2 * step
  ⟨value - below, value, value + 2 * step, x.significand % 2 == 0⟩

/-- The largest `k` with `10 ^ k` units not above `value` quarter steps.  The binary logarithm
gives a guess that is at most one too small or too large. -/
def decimalExponent (value : Nat) : Int :=
  let guess : Int := ((Nat.log2 value : Int) - 1076) * 30103 / 100000
  let reaches (k : Int) : Bool := Nat.pow 10 k.toNat * quarters ≤ value * Nat.pow 10 (-k).toNat
  if reaches (guess + 1) then guess + 1
  else if reaches guess then guess
  else guess - 1

/-- The multiple of `10 ^ k` units that lies in the basin, if there is one: of the two
neighbours of the value the nearer, a tie going to the even one. -/
def gridPoint? (basin : Basin) (k : Int) : Option Nat :=
  let stretch := Nat.pow 10 (-k).toNat
  let grid := Nat.pow 10 k.toNat * quarters
  let inside (point : Nat) : Bool :=
    if basin.closed then basin.low * stretch ≤ point * grid &&
      point * grid ≤ basin.high * stretch
    else basin.low * stretch < point * grid && point * grid < basin.high * stretch
  let value := basin.value * stretch
  let under := value / grid
  match inside under, inside (under + 1) with
  | true, true =>
    let gap := 2 * (value % grid)
    if gap < grid || (gap == grid && under % 2 == 0) then some under else some (under + 1)
  | true, false => some under
  | false, true => some (under + 1)
  | false, false => none

/-- The numeral of `point × 10 ^ k`, for a `point` that is not zero. -/
def numeralOf (point : Nat) (k : Int) : Numeral :=
  let digits := Nat.toDigits 10 point
  ⟨(digits.reverse.dropWhile (· == '0')).reverse, k + digits.length - 1⟩

/-- The shortest numeral of a positive finite number. -/
def shortest (x : Binary64) : Numeral :=
  let basin := x.basin
  let exponent := decimalExponent basin.value
  let found := (List.range 17).findSome? fun (n : Nat) =>
    let k := exponent - (n : Int)
    (gridPoint? basin k).map fun point => numeralOf point k
  found.getD ⟨['0'], 0⟩

end Binary64

/-- How a numeral is set.  Exponents from `leastPositional` to `greatestPositional` are written
positionally with at least one decimal, all others as an exponent with an explicit sign. -/
structure Layout where
  leastPositional : Int
  greatestPositional : Int

/-- The text of a numeral in a layout. -/
def Numeral.write (layout : Layout) (numeral : Numeral) : List Char :=
  let digits := numeral.digits
  let exponent := numeral.exponent
  if layout.leastPositional ≤ exponent && exponent ≤ layout.greatestPositional then
    if exponent < 0 then
      "0.".toList ++ List.replicate (-exponent - 1).toNat '0' ++ digits
    else
      let places := exponent.toNat + 1
      let whole := digits.take places ++ List.replicate (places - digits.length) '0'
      let decimals := digits.drop places
      whole ++ '.' :: (if decimals.isEmpty then ['0'] else decimals)
  else
    let sign := if exponent < 0 then '-' else '+'
    let tail := if digits.length ≤ 1 then [] else '.' :: digits.drop 1
    digits.take 1 ++ tail ++ 'e' :: sign :: Nat.toDigits 10 exponent.natAbs

example : (Binary64.nearest false 1 10).shortest = ⟨['1'], -1⟩ := by decide +kernel
example : (⟨1⟩ : Binary64).shortest = ⟨['5'], -324⟩ := by decide +kernel
example : (Binary64.ofNat (2 ^ 53)).shortest = ⟨"9007199254740992".toList, 15⟩ :=
  by decide +kernel

end AvroBindings
