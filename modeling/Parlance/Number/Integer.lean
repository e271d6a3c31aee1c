import Parlance.Number.Numeral

/-!
# Arithmetic on 64-bit integers

Each operation computes in the integers and answers nothing when the result is out of range.

* `Integer.add?`, `sub?`, `mul?`, `neg?`;
* `Integer.div?`, `Integer.rem?`   division toward zero, for a divisor other than zero;
* `Integer.pow?`                   exponents from zero to `2 ^ 32 - 1`;
* `Integer.shl?`, `Integer.shr?`   shifts by 0 to 63 places, the left one dropping high bits and
                                   the right one copying the sign;
* `Integer.display`                the decimal text.
-/

namespace Parlance.Integer

open Numeral (toInt64?)

/-- the sum -/
def add? (a b : Int64) : Option Int64 := toInt64? (a.toInt + b.toInt)

/-- the difference -/
def sub? (a b : Int64) : Option Int64 := toInt64? (a.toInt - b.toInt)

/-- the product -/
def mul? (a b : Int64) : Option Int64 := toInt64? (a.toInt * b.toInt)

/-- the same magnitude with the other sign -/
def neg? (a : Int64) : Option Int64 := toInt64? (-a.toInt)

/-- the quotient, rounded toward zero -/
def div? (a b : Int64) : Option Int64 := toInt64? (a.toInt.tdiv b.toInt)

/-- The remainder, with the sign of `a`.  It is refused where the quotient is out of range. -/
def rem? (a b : Int64) : Option Int64 := (div? a b).bind fun _ => toInt64? (a.toInt.tmod b.toInt)

/-- The power `a ^ n`.  Where `a` is 0, 1 or -1 only the parity of a large exponent matters, and
everywhere else a large exponent leaves the range. -/
def pow? (a : Int64) (n : Nat) : Option Int64 :=
  if UInt32.size ≤ n then none
  else if a.toInt.natAbs ≤ 1 then toInt64? (Int.pow a.toInt (min n (2 + n % 2)))
  else if 64 ≤ n then none
  else toInt64? (Int.pow a.toInt n)

/-- is `b` a number of places that a word can be shifted by -/
def isShift (b : Int64) : Bool := 0 ≤ b.toInt && b.toInt < 64

/-- the shift to the left -/
def shl? (a b : Int64) : Option Int64 := if isShift b then some (a <<< b) else none

/-- the shift to the right -/
def shr? (a b : Int64) : Option Int64 := if isShift b then some (a >>> b) else none

/-- the decimal text of an integer -/
def display (i : Int64) : String :=
  let digits := String.ofList (Nat.toDigits 10 i.toInt.natAbs)
  if i.toInt < 0 then "-" ++ digits else digits

end Parlance.Integer
