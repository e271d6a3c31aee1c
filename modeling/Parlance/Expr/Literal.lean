import Parlance.Expr.Basic
import Parlance.Number.Numeral

/-!
# Literals

* `Literal.number cs`      the integer or double that the text of a number token denotes;
* `Literal.unescape cs`    the characters that the text of a string token stands for;
* `Literal.char? cs`       the one character that the text of a character token stands for;
* `Literal.argument? cs`   the number of an argument, as it stands after a dollar sign.

A number is an integer unless it is decimal and has a point or an exponent.
-/

namespace Parlance.Literal

/-- why the text of a number token denotes nothing -/
inductive NumberFault where
  | noDigits
  | badDigit
  | tooLarge
  | notDouble
deriving DecidableEq

def NumberFault.message (literal : String) : NumberFault → String
  | noDigits =>
    "invalid integer literal '" ++ literal ++ "': cannot parse integer from empty string"
  | badDigit => "invalid integer literal '" ++ literal ++ "': invalid digit found in string"
  | tooLarge =>
    "invalid integer literal '" ++ literal ++ "': number too large to fit in target type"
  | notDouble => "invalid floating point literal '" ++ literal ++ "'"

/-- has a decimal number a point or an exponent -/
def isFractional (cs : List Char) : Bool := cs.any fun c => c == '.' || c == 'e' || c == 'E'

def integer (r : Radix) (digits : List Char) : Except NumberFault Int64 :=
  if digits = [] then .error .noDigits
  else match Numeral.nat? r digits with
    | none => .error .badDigit
    | some n =>
      match Numeral.toInt64? n with
      | some i => .ok i
      | none => .error .tooLarge

/-- what the text of a number token denotes -/
def number (cs : List Char) : Except NumberFault Expr :=
  let (radix, _, body) := Radix.split cs
  if radix = .decimal ∧ isFractional cs then
    match Numeral.double? cs with
    | some d => .ok (.dbl d)
    | none => .error .notDouble
  else (integer radix body).map .int

/-! ## Escapes -/

/-- What a backslash and `c` stand for.  Where that is no escape, they stand for themselves. -/
def unescapeOne (c : Char) : List Char :=
  if c == 'n' then ['\n']
  else if c == 'b' then ['\x08']
  else if c == 'r' then ['\r']
  else if c == 't' then ['\t']
  else if c == '"' || c == '\'' || c == '\\' then [c]
  else ['\\', c]

/-- the characters that a text with escapes stands for -/
def unescape : List Char → List Char
  | [] => []
  | [c] => [c]
  | c :: d :: cs => if c == '\\' then unescapeOne d ++ unescape cs else c :: unescape (d :: cs)

/-- the one character that a text with escapes stands for -/
def char? (cs : List Char) : Option Char :=
  match unescape cs with
  | [c] => some c
  | _ => none

/-- the number of an argument, which is a 64-bit word -/
def argument? (cs : List Char) : Option Nat :=
  (Numeral.word64? .decimal cs).map UInt64.toNat

end Parlance.Literal
