import Parlance.Number.Double

/-!
# Arithmetic on doubles

Each of `+`, `-`, `*`, `/` and `%` computes the exact result in units and rounds it once.  An
operand that is a NaN is the answer, the left one before the right one; an operation without a
value answers `Double.invalid`.

* `Double.signedUnits x`   a finite double as an integer number of units;
* `Double.add`, `sub`, `mul`, `div`;
* `Double.rem`             what is left after dividing toward zero, with the sign of the dividend;
* `Double.isOdd x`         whether a double is an odd integer;
* `Double.pow`             the machine's power function.
-/

namespace Parlance.Double

/-- a finite double as an integer number of units -/
def signedUnits (x : Double) : Int := if x.negative then -x.units else x.units

/-- the first NaN among the operands, or else `result` -/
def orNaN (x y : Double) (result : Double) : Double :=
  if x.isNaN then x.quieted else if y.isNaN then y.quieted else result

/-- The sum.  An exact zero is positive, except for two negative zeros. -/
def add (x y : Double) : Double :=
  orNaN x y <|
    if x.isInfinite then
      if y.isInfinite && x.negative != y.negative then invalid else x
    else if y.isInfinite then y
    else
      let sum := x.signedUnits + y.signedUnits
      if sum = 0 then zero (x.negative && y.negative)
      else round (sum < 0) sum.natAbs 1

/-- the difference -/
def sub (x y : Double) : Double := orNaN x y (add x y.neg)

/-- the product -/
def mul (x y : Double) : Double :=
  let negative := x.negative != y.negative
  orNaN x y <|
    if x.isInfinite || y.isInfinite then
      if x.isZero || y.isZero then invalid else infinity negative
    else round negative (x.units * y.units) unitsPerOne

/-- the quotient -/
def div (x y : Double) : Double :=
  let negative := x.negative != y.negative
  orNaN x y <|
    if x.isInfinite then
      if y.isInfinite then invalid else infinity negative
    else if y.isInfinite then zero negative
    else if y.isZero then
      if x.isZero then invalid else infinity negative
    else round negative (x.units * unitsPerOne) y.units

/-- the remainder of the division toward zero -/
def rem (x y : Double) : Double :=
  orNaN x y <|
    if x.isInfinite || y.isZero then invalid
    else if y.isInfinite then x
    else round x.negative (x.units % y.units) 1

def isOdd (x : Double) : Bool :=
  !x.isNaN && !x.isInfinite && x.units % unitsPerOne == 0 && x.units / unitsPerOne % 2 == 1

/-- Is `x` a NaN that no operation has answered: its first fraction bit is clear. -/
def isSignaling (x : Double) : Bool := x.isNaN && x.quieted != x

/-- The power when an operand is a NaN.  That operand is the answer, as in the other operations, but
an odd exponent takes a negative sign away.  The zeroth power of everything and all powers of one
are one, unless the NaN is signaling. -/
def powNaN (x y : Double) : Double :=
  if y.isZero then if x.isSignaling then x.quieted else one
  else if x == one then if y.isSignaling then y.quieted else one
  else if x.isNaN && x.negative && y.isOdd then x.quieted.neg
  else orNaN x y invalid

/-- The power.  For numbers the last digit is the machine's. -/
def pow (x y : Double) : Double :=
  if x.isNaN || y.isNaN then powNaN x y
  else
    let result := Float.pow (Float.ofBits x.bits) (Float.ofBits y.bits)
    if result.isNaN then invalid else ⟨result.toBits⟩

end Parlance.Double
