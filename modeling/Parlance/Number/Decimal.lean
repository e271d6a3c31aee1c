import Parlance.Number.Double

/-!
# Decimal text of doubles

* `Double.shortest x`    a significand and a power of ten: of the decimals that read back as `x`
                         one with the fewest digits, and of those the nearest, the larger on a tie;
* `Double.exactText x`   that decimal as a literal: positional from `1e-4` up to but not including
                         `1e16`, always with a point, and with an exponent elsewhere;
* `Double.placesText x`  three places after the point, a half going to the even neighbour.
-/

namespace Parlance.Double

def digitsOf (n : Nat) : List Char := Nat.toDigits 10 n

/-! ## The fewest digits -/

/-- The numerators, over one denominator, of the value of `x` and of the two ends of the interval
of numbers that round to `x`, and whether the ends belong to it.  They are counted in quarters of
a unit; below a power of two the interval reaches half as far as above it. -/
structure Interval where
  low : Nat
  value : Nat
  high : Nat
  closed : Bool

/-- the interval of numbers that round to `x` -/
def interval (x : Double) : Interval :=
  let value := 4 * x.units
  let below := if x.fractionField = 0 ∧ 1 < x.exponentField then x.step else 2 * x.step
  ⟨value - below, value, value + 2 * x.step, x.units / x.step % 2 = 0⟩

/-- is `n` in the interval after it is stretched by `scale` -/
def Interval.contains (i : Interval) (scale n : Nat) : Bool :=
  if i.closed then i.low * scale ≤ n && n ≤ i.high * scale
  else i.low * scale < n && n < i.high * scale

/-- The multiple of `10 ^ k` that is in the interval and nearest to its value, the larger of two
at the same distance. -/
def Interval.onGrid? (i : Interval) (k : Int) : Option Nat :=
  let scale := Nat.pow 10 (-k).toNat
  let gap := Nat.pow 10 k.toNat * (4 * unitsPerOne)
  let floor := i.value * scale / gap
  let down := i.contains scale (floor * gap)
  let up := i.contains scale ((floor + 1) * gap)
  if down && up then
    some (if 2 * (i.value * scale % gap) < gap then floor else floor + 1)
  else if down then some floor
  else if up then some (floor + 1)
  else none

/-- the coarsest grid, from `10 ^ (n - 343)` downward, with a multiple in the interval -/
def Interval.coarsest (i : Interval) : Nat → Nat × Int
  | 0 => (0, 0)
  | n + 1 =>
    let k : Int := n - 343
    match i.onGrid? k with
    | some d => (d, k)
    | none => i.coarsest n

/-- The significand and the power of ten of the shortest decimal of a finite double other than
zero. -/
def shortest (x : Double) : Nat × Int := x.interval.coarsest 653

def withSign (x : Double) (text : List Char) : List Char :=
  if x.negative then '-' :: text else text

/-- digits with the point before the last `k` of them when `k` is positive, and `-k` zeros and an
empty fraction after them otherwise -/
def positional (digits : List Char) (k : Int) : List Char :=
  if 0 ≤ k then digits ++ List.replicate k.toNat '0' ++ ['.', '0']
  else
    let places := (-k).toNat
    let padded := List.replicate (places + 1 - digits.length) '0' ++ digits
    padded.take (padded.length - places) ++ '.' :: padded.drop (padded.length - places)

/-- one digit, the others after a point, and the exponent -/
def scientific (digits : List Char) (k : Int) : List Char :=
  let exponent := k + (digits.length - 1 : Nat)
  let fraction := digits.drop 1
  digits.take 1 ++ (if fraction = [] then [] else '.' :: fraction) ++ 'e' ::
    (if exponent < 0 then '-' :: digitsOf exponent.natAbs else digitsOf exponent.natAbs)

/-- the shortest literal that denotes `x` -/
def exactText (x : Double) : List Char :=
  if x.isNaN then ['N', 'a', 'N']
  else if x.isInfinite then x.withSign ['i', 'n', 'f']
  else if x.isZero then x.withSign ['0', '.', '0']
  else
    let (significand, k) := x.shortest
    let digits := digitsOf significand
    let top := k + digits.length
    x.withSign (if -4 < top ∧ top ≤ 16 then positional digits k else scientific digits k)

/-! ## Three places -/

def placesText (x : Double) : List Char :=
  if x.isNaN then ['N', 'a', 'N']
  else if x.isInfinite then x.withSign ['i', 'n', 'f']
  else
    let thousandths := divHalfEven (x.units * 1000) unitsPerOne
    let fraction := digitsOf (thousandths % 1000)
    x.withSign (digitsOf (thousandths / 1000) ++ '.' ::
      (List.replicate (3 - fraction.length) '0' ++ fraction))

end Parlance.Double
