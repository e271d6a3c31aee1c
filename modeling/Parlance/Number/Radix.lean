/-!
# The three radices of numerals

* `Radix.digit? r c`     the value of the digit `c`, or nothing if `c` is no digit of radix `r`;
* `Radix.split cs`       the radix that a numeral's lead announces, the lead and what follows it;
* `Radix.value r cs`     the number that a string of digits denotes.

The lead is `0x` or `0b` with a letter of either case.  A numeral without a lead is decimal.
-/

namespace Parlance

/-- the radix of a numeral -/
inductive Radix where
  | binary
  | decimal
  | hexadecimal
deriving DecidableEq

namespace Radix

def base : Radix → Nat
  | binary => 2
  | decimal => 10
  | hexadecimal => 16

/-- the value of a hexadecimal digit of either case -/
def hexDigit? (c : Char) : Option Nat :=
  if '0' ≤ c ∧ c ≤ '9' then some (c.toNat - '0'.toNat)
  else if 'a' ≤ c ∧ c ≤ 'f' then some (c.toNat - 'a'.toNat + 10)
  else if 'A' ≤ c ∧ c ≤ 'F' then some (c.toNat - 'A'.toNat + 10)
  else none

def digit? (r : Radix) (c : Char) : Option Nat := (hexDigit? c).filter (· < r.base)

def isDigit (r : Radix) (c : Char) : Bool := (r.digit? c).isSome

/-- The radix of a numeral, its lead and the text after the lead. -/
def split : List Char → Radix × List Char × List Char
  | '0' :: 'x' :: cs => (hexadecimal, ['0', 'x'], cs)
  | '0' :: 'X' :: cs => (hexadecimal, ['0', 'X'], cs)
  | '0' :: 'b' :: cs => (binary, ['0', 'b'], cs)
  | '0' :: 'B' :: cs => (binary, ['0', 'B'], cs)
  | cs => (decimal, [], cs)

/-- the lead and the text after it make up the text -/
theorem split_append (cs : List Char) : (split cs).2.1 ++ (split cs).2.2 = cs := by
  unfold split; split <;> rfl

/-- The number denoted by `cs`, each digit worth `base` times the one after it; a character that
is no digit counts for nothing. -/
def value (r : Radix) (cs : List Char) : Nat :=
  cs.foldl (fun n c => n * r.base + (r.digit? c).getD 0) 0

end Radix

end Parlance
