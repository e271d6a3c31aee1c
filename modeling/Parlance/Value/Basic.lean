import Parlance.Command.Basic
import Parlance.Number.Double

/-!
# Values

* `Value`            what expressions evaluate to;
* `Value.ty`         its type: a list and a map keep the types of what they hold, also when empty;
* `Value.ofString`   a string, which is a list of characters;
* `Value.text?`      the characters of a string;
* `Value.zero? t`    the value that a fresh global of type `t` holds.

The entries of a map stand in the order of their keys (`Parlance.Value.Order`).
-/

namespace Parlance

/-- what an expression evaluates to -/
inductive Value where
  | void
  | bool (b : Bool)
  | char (c : Char)
  | int (i : Int64)
  | dbl (d : Double)
  | list (elem : Ty) (items : List Value)
  | map (key elem : Ty) (entries : List (Value × Value))
  | function (command : Command)

namespace Value

def ty : Value → Ty
  | void => .void
  | bool _ => .bool
  | char _ => .char
  | int _ => .int
  | dbl _ => .dbl
  | list elem _ => .list elem
  | map key elem _ => .map key elem
  | function command => command.signature.ty

/-- the string of the given characters -/
def ofChars (cs : List Char) : Value := list .char (cs.map char)

def ofString (s : String) : Value := ofChars s.toList

def ofStrings (words : List String) : Value := list .string (words.map ofString)

def isString : Value → Bool
  | list .char _ => true
  | _ => false

def char? : Value → Option Char
  | char c => some c
  | _ => none

/-- the characters of a string; an item that is no character does not show -/
def chars? : Value → Option (List Char)
  | list .char items => some (items.filterMap char?)
  | _ => none

def text? (v : Value) : Option String := v.chars?.map String.ofList

def int? : Value → Option Int64
  | int i => some i
  | _ => none

def items? : Value → Option (List Value)
  | list _ items => some items
  | _ => none

def size? : Value → Option Nat
  | list _ items => some items.length
  | map _ _ entries => some entries.length
  | _ => none

/-- the value that a fresh global of type `t` holds; there is none of a function type -/
def zero? : Ty → Option Value
  | .void => some void
  | .int => some (int 0)
  | .dbl => some (dbl (.zero false))
  | .bool => some (bool false)
  | .char => some (char '\x00')
  | .list elem => some (list elem [])
  | .map key elem => some (map key elem [])
  | .fn _ _ => none

@[simp] theorem chars?_ofChars (cs : List Char) : (ofChars cs).chars? = some cs := by
  simp only [ofChars, chars?, Option.some.injEq]
  induction cs with
  | nil => rfl
  | cons c cs ih => simp [char?, ih]

@[simp] theorem text?_ofString (s : String) : (ofString s).text? = some s := by
  simp [ofString, text?]

/-- a fresh global has the type that it was declared with -/
theorem ty_of_zero? {t : Ty} {v : Value} (h : zero? t = some v) : v.ty = t := by
  cases t <;> simp_all [zero?] <;> subst h <;> rfl

end Value

end Parlance
