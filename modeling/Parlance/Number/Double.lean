/-!
# Doubles

A `Double` is its 64 bits: a sign, an exponent field of 11 bits and a fraction of 52.

* `Double.units x`            the magnitude of a finite double as a multiple of `2 ^ -1074`, the
                              smallest positive one, so that exact arithmetic stays within `Nat`;
* `Double.round neg n d`      the double nearest to `n / d` units, a tie going to the even one;
* `Double.totalCompare`       the order in which doubles key a map: every bit counts;
* `Double.compare?`           the order of the numbers: nothing for a NaN, and the zeros are equal.

A NaN keeps its sign.  The one that an operation without a value answers is negative, so it comes
before every number in the total order; the one that a numeral denotes is positive.
-/

namespace Parlance

/-- a double precision number, by its bits -/
structure Double where
  bits : UInt64
deriving DecidableEq

namespace Double

/-- the magnitude bits of infinity; those of a NaN are above it -/
def infinityBits : Nat := 0x7ff0000000000000

def signWeight : Nat := 0x8000000000000000

/-- the number of values of the fraction field, which is the weight of the exponent field -/
def fractionSize : Nat := 0x10000000000000

/-- the double with the given sign and magnitude bits -/
def ofParts (negative : Bool) (magnitude : Nat) : Double :=
  ⟨UInt64.ofNat (if negative then signWeight + magnitude else magnitude)⟩

def negative (x : Double) : Bool := signWeight ≤ x.bits.toNat

def magnitude (x : Double) : Nat := x.bits.toNat % signWeight

def exponentField (x : Double) : Nat := x.magnitude / fractionSize

def fractionField (x : Double) : Nat := x.magnitude % fractionSize

def isNaN (x : Double) : Bool := infinityBits < x.magnitude

def isInfinite (x : Double) : Bool := x.magnitude == infinityBits

def isZero (x : Double) : Bool := x.magnitude == 0

/-- the distance, in units, from a finite double to the next larger magnitude -/
def step (x : Double) : Nat := 1 <<< (x.exponentField - 1)

/-- the magnitude of a finite double in units of `2 ^ -1074` -/
def units (x : Double) : Nat :=
  if x.exponentField = 0 then x.fractionField else (fractionSize + x.fractionField) * x.step

/-- the number of units in one -/
def unitsPerOne : Nat := 1 <<< 1074

/-- the zero with the given sign -/
def zero (negative : Bool) : Double := ofParts negative 0

/-- the number one -/
def one : Double := ofParts false 0x3ff0000000000000

/-- the infinity with the given sign -/
def infinity (negative : Bool) : Double := ofParts negative infinityBits

/-- the NaN that a numeral denotes, with the given sign -/
def quietNaN (negative : Bool) : Double := ofParts negative 0x7ff8000000000000

/-- the answer of an operation that has no value -/
def invalid : Double := quietNaN true

/-- a NaN as it comes out of an operation -/
def quieted (x : Double) : Double := ⟨x.bits ||| 0x0008000000000000⟩

/-- the same magnitude with the other sign -/
def neg (x : Double) : Double := ofParts (!x.negative) x.magnitude

/-! ## Rounding -/

/-- `n / d` rounded to an integer, a half going to the even neighbour -/
def divHalfEven (n d : Nat) : Nat :=
  let q := n / d
  let r := n % d
  if d < 2 * r ∨ (2 * r = d ∧ q % 2 = 1) then q + 1 else q

/-- The magnitude bits of the double nearest to `n / d` units.  A quotient of at least `2 ^ 53` is
cut to 53 digits; the number of binary places cut is the exponent field less one, so adding it
above the 52 places of the fraction also carries a rounding to the next power of two. -/
def roundBits (n d : Nat) : Nat :=
  let places := (n / d).log2 - 52
  min (places * fractionSize + divHalfEven n (d <<< places)) infinityBits

/-- the double nearest to `n / d` units with the given sign -/
def round (negative : Bool) (n d : Nat) : Double := ofParts negative (roundBits n d)

/-- the double nearest to an integer -/
def ofInt (i : Int) : Double := round (i < 0) (i.natAbs * unitsPerOne) 1

/-- The integer part of a double, toward zero, kept within the 64-bit range; zero for a NaN. -/
def toInt64 (x : Double) : Int64 :=
  if x.isNaN then 0
  else if x.negative then
    if x.isInfinite then Int64.minValue
    else Int64.ofInt (-(min (x.units / unitsPerOne) signWeight : Nat))
  else
    if x.isInfinite then Int64.maxValue
    else Int64.ofInt (min (x.units / unitsPerOne) (signWeight - 1) : Nat)

/-! ## Orders -/

/-- the place of `x` in the total order -/
def totalKey (x : Double) : Int :=
  if x.negative then -1 - x.magnitude else x.magnitude

/-- the total order: negative NaNs, numbers with `-0` before `0`, positive NaNs -/
def totalCompare (x y : Double) : Ordering := compare x.totalKey y.totalKey

/-- the place of a number in the order of numbers -/
def numberKey (x : Double) : Int :=
  if x.negative then -x.magnitude else x.magnitude

/-- the order of numbers; a NaN has no place in it -/
def compare? (x y : Double) : Option Ordering :=
  if x.isNaN || y.isNaN then none else some (compare x.numberKey y.numberKey)

theorem compare?_swap (x y : Double) : compare? y x = (compare? x y).map Ordering.swap := by
  unfold compare?
  rw [Bool.or_comm]
  split
  · rfl
  · simp [Int.compare_swap]

end Double

end Parlance
