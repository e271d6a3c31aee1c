import Parlance.Number.Double
import Parlance.Number.Radix

/-!
# Reading numerals

* `Numeral.nat? r cs`     a non-empty string of digits of radix `r`, and nothing else;
* `Numeral.int? cs`       decimal digits after an optional sign;
* `Numeral.int64? cs`     the same within the 64-bit range;
* `Numeral.word64? r cs`  digits after an optional plus sign, below `2 ^ 64`;
* `Numeral.double? cs`    a decimal with an optional point and exponent, rounded once, or one of
                          the words `inf`, `infinity` and `nan` in any case.
-/

namespace Parlance.Numeral

/-- the integer as a 64-bit one, if it is in range -/
def toInt64? (i : Int) : Option Int64 :=
  if -0x8000000000000000 ≤ i ∧ i < 0x8000000000000000 then some (Int64.ofInt i) else none

/-- the number that a non-empty string of digits denotes -/
def nat? (r : Radix) (cs : List Char) : Option Nat :=
  if cs ≠ [] ∧ cs.all r.isDigit then some (r.value cs) else none

/-- is there a minus sign in front, and the text after an optional sign -/
def splitSign : List Char → Bool × List Char
  | '-' :: cs => (true, cs)
  | '+' :: cs => (false, cs)
  | cs => (false, cs)

/-- the integer that decimal digits after an optional sign denote -/
def int? (cs : List Char) : Option Int :=
  let (negative, digits) := splitSign cs
  (nat? .decimal digits).map fun n => if negative then -(n : Int) else n

/-- the 64-bit integer that decimal digits after an optional sign denote -/
def int64? (cs : List Char) : Option Int64 := (int? cs).bind toInt64?

/-- the 64-bit word that digits after an optional plus sign denote -/
def word64? (r : Radix) (cs : List Char) : Option UInt64 :=
  let digits := match cs with
    | '+' :: ds => ds
    | ds => ds
  (nat? r digits).bind fun n => if n < UInt64.size then some (UInt64.ofNat n) else none

/-! ## Doubles -/

/-- The double nearest to `m * 10 ^ e`.  Exponents far outside the range are settled by the number
of digits alone. -/
def scaled (negative : Bool) (m : Nat) (e : Int) : Double :=
  let top := e + ((Nat.toDigits 10 m).length : Nat)
  if m = 0 ∨ top < -330 then .zero negative
  else if 310 < top then .infinity negative
  else .round negative (m * Nat.pow 10 e.toNat * Double.unitsPerOne) (Nat.pow 10 (-e).toNat)

/-- the exponent that the text after a significand denotes, if it is one: nothing at all, or a mark
and an integer -/
def exponent? : List Char → Option Int
  | [] => some 0
  | c :: cs => if c == 'e' || c == 'E' then int? cs else none

def decimal? (negative : Bool) (cs : List Char) : Option Double :=
  let whole := cs.takeWhile Char.isDigit
  let rest := cs.dropWhile Char.isDigit
  let (fraction, rest) := match rest with
    | '.' :: ds => (ds.takeWhile Char.isDigit, ds.dropWhile Char.isDigit)
    | ds => ([], ds)
  if whole = [] ∧ fraction = [] then none
  else (exponent? rest).map fun e =>
    scaled negative (Radix.decimal.value (whole ++ fraction)) (e - (fraction.length : Nat))

/-- the double that a text denotes -/
def double? (cs : List Char) : Option Double :=
  let (negative, body) := splitSign cs
  let word := body.map Char.toLower
  if word = ['i', 'n', 'f'] ∨ word = ['i', 'n', 'f', 'i', 'n', 'i', 't', 'y'] then
    some (.infinity negative)
  else if word = ['n', 'a', 'n'] then some (.quietNaN negative)
  else decimal? negative body

theorem toInt64?_toInt (i : Int64) : toInt64? i.toInt = some i := by
  have h1 := i.le_toInt
  have h2 := i.toInt_lt
  simp only [toInt64?]
  rw [if_pos ⟨h1, h2⟩, Int64.ofInt_toInt]

end Parlance.Numeral
