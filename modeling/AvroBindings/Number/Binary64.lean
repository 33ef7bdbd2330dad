/-!
# Binary64 numbers

The sixty-four bit binary floating point numbers, kept as their bits and computed with in exact
integer arithmetic.

## Main Definitions

* `Binary64` — a number by its bits; two numbers are equal as values of this type when all bits
  agree.
* `Binary64.magnitude` — the absolute value of a finite number in units of `2 ^ (-1074)`, the
  smallest step.
* `Binary64.nearest` — the number nearest to a quotient of natural numbers, a tie going to the
  even significand.
* `Binary64.ofInt`, `Binary64.mul`, `Binary64.div` — each the exact result passed through
  `nearest`.
* `Binary64.numEq` — numeric equality: the two zeros are equal, and a number that is not a
  number equals nothing.

## Design Notes

A finite number is `significand * 2 ^ scale` steps, with `scale = 0` for the subnormal ones.
Written that way its bits, sign aside, are just `significand + scale * 2 ^ 52`: the hidden bit
of a normal significand carries into the exponent field.  Rounding therefore needs no case for
subnormal numbers and none for a significand that rounds up to the next power of two.

Powers are written `Nat.pow`, which is one function whatever algebra is in scope.
-/

namespace AvroBindings

/-- A binary64 number by its bits: the sign, eleven bits of exponent and fifty-two bits of
fraction. -/
structure Binary64 where
  bits : UInt64
deriving DecidableEq, Inhabited

namespace Binary64

/-! ### Fields -/

/-- Whether the sign bit is set. -/
def isNegative (x : Binary64) : Bool := x.bits.toNat / Nat.pow 2 63 % 2 == 1

/-- The exponent field. -/
def exponentField (x : Binary64) : Nat := x.bits.toNat / Nat.pow 2 52 % 2048

/-- The fraction field. -/
def fraction (x : Binary64) : Nat := x.bits.toNat % Nat.pow 2 52

/-- Whether the number is neither an infinity nor a NaN. -/
def isFinite (x : Binary64) : Bool := x.exponentField != 2047

/-- Whether the number is a NaN. -/
def isNaN (x : Binary64) : Bool := x.exponentField == 2047 && x.fraction != 0

/-- The significand of a finite number, the hidden bit included. -/
def significand (x : Binary64) : Nat :=
  if x.exponentField = 0 then x.fraction else x.fraction + Nat.pow 2 52

/-- The power of two that the significand of a finite number is scaled by, above the smallest
step. -/
def scale (x : Binary64) : Nat := x.exponentField - 1

/-- The absolute value of a finite number in units of `2 ^ (-1074)`. -/
def magnitude (x : Binary64) : Nat := x.significand * Nat.pow 2 x.scale

/-- Whether the number is one of the two zeros. -/
def isZero (x : Binary64) : Bool := x.bits.toNat % Nat.pow 2 63 == 0

/-! ### Rounding -/

/-- The number with the given sign whose other bits are `unsigned`. -/
def ofSign (negative : Bool) (unsigned : Nat) : Binary64 :=
  ⟨UInt64.ofNat (unsigned + if negative then Nat.pow 2 63 else 0)⟩

/-- The bits of an infinity, its sign aside. -/
def infinityBits : Nat := 2047 * Nat.pow 2 52

/-- An infinity. -/
def infinity (negative : Bool) : Binary64 := ofSign negative infinityBits

/-- The NaN with a positive sign and the quiet bit alone. -/
def nan : Binary64 := ofSign false (infinityBits + Nat.pow 2 51)

/-- A zero. -/
def zero (negative : Bool) : Binary64 := ofSign negative 0

/-- A quotient rounded to the nearest integer, a tie going to the even one. -/
def roundQuotient (num den : Nat) : Nat :=
  let quotient := num / den
  let rest := 2 * (num % den)
  if rest > den || (rest == den && quotient % 2 == 1) then quotient + 1 else quotient

/-- The number of smallest steps in one unit. -/
def stepsPerUnit : Nat := Nat.pow 2 1074

/-- The number nearest to `num / den`, with the given sign; a quotient too large for a finite
number gives an infinity. -/
def nearest (negative : Bool) (num den : Nat) : Binary64 :=
  let steps := num * stepsPerUnit
  let scale := Nat.log2 (steps / den) - 52
  let unsigned := roundQuotient steps (den * Nat.pow 2 scale) + scale * Nat.pow 2 52
  ofSign negative (min unsigned infinityBits)

/-! ### Arithmetic -/

/-- The number nearest to a natural number. -/
def ofNat (n : Nat) : Binary64 := nearest false n 1

/-- The number nearest to an integer. -/
def ofInt (n : Int) : Binary64 := nearest (n < 0) n.natAbs 1

/-- The number nearest to a power of ten. -/
def powerOfTen (k : Nat) : Binary64 := ofNat (Nat.pow 10 k)

/-- The product of two finite numbers. -/
def mul (x y : Binary64) : Binary64 :=
  nearest (x.isNegative != y.isNegative) (x.magnitude * y.magnitude) (Nat.pow 2 2148)

/-- The quotient of two finite numbers, the second not zero. -/
def div (x y : Binary64) : Binary64 :=
  nearest (x.isNegative != y.isNegative) x.magnitude y.magnitude

/-- The number with the other sign. -/
def neg (x : Binary64) : Binary64 := ofSign (!x.isNegative) (x.bits.toNat % Nat.pow 2 63)

/-- Numeric equality. -/
def numEq (x y : Binary64) : Bool :=
  !x.isNaN && !y.isNaN && (x.bits == y.bits || (x.isZero && y.isZero))

/-- A number equals itself unless it is a NaN. -/
theorem numEq_self {x : Binary64} (h : x.isNaN = false) : x.numEq x = true := by
  simp [numEq, h]

/-- Numeric equality is symmetric. -/
theorem numEq_comm (x y : Binary64) : x.numEq y = y.numEq x := by
  unfold numEq
  rw [BEq.comm (a := x.bits)]
  cases x.isNaN <;> cases y.isNaN <;> cases x.isZero <;> cases y.isZero <;> simp

example : (ofNat 1).bits = 0x3FF0000000000000 := by decide +kernel
example : (nearest true 1 10).bits = 0xBFB999999999999A := by decide +kernel
example : (ofInt (-9007199254740993)).bits = 0xC340000000000000 := by decide +kernel
example : ((powerOfTen 308).mul (ofNat 10)).isFinite = false := by decide +kernel
example : (nearest false 5 (10 ^ 324)).bits = 1 := by decide +kernel

end Binary64

end AvroBindings
