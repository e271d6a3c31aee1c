import Parlance.Command.Overload
import Parlance.Number.Numeral
import Parlance.Text.Blank
import Parlance.Value.Printer

/-!
# The functions that the language comes with

* `Primitive.apply`     what a primitive function answers: each looks at its first argument again,
                        and answers nothing where the argument is not of the kind it is for;
* `Command.standard`    the four names `int`, `str`, `dbl` and `len`, each for several kinds of
                        arguments; the order settles ties.
-/

namespace Parlance

namespace Primitive

/-- what a function answers for its first argument -/
def answer : Primitive → Value → Option Value
  | intOfInt, .int i => some (.int i)
  | intOfStr, v => v.chars?.bind fun cs => (Numeral.int64? (Text.dropBlanks cs)).map .int
  | intOfDbl, .dbl d => some (.int d.toInt64)
  | intOfBool, .bool b => some (.int (if b then 1 else 0))
  | intOfChar, .char c => some (.int (Int64.ofInt c.toNat))
  | strOfStr, v => if v.isString then some v else none
  | strOfScalar, .char c => some (.ofChars [c])
  | strOfScalar, .int i => some (.ofString (Value.int i).display)
  | strOfScalar, .dbl d => some (.ofString (Value.dbl d).display)
  | strOfScalar, .bool b => some (.ofString (Value.bool b).display)
  | strOfContainer, .list elem items => some (.ofString (Value.list elem items).display)
  | strOfContainer, .map key elem entries => some (.ofString (Value.map key elem entries).display)
  | dblOfDbl, .dbl d => some (.dbl d)
  | dblOfInt, .int i => some (.dbl (.ofInt i.toInt))
  | dblOfStr, v => v.chars?.bind fun cs => (Numeral.double? (Text.trim cs)).map .dbl
  | len, v => v.size?.bind fun n => (Numeral.toInt64? n).map .int
  | _, _ => none

/-- what a function answers for its arguments -/
def apply (p : Primitive) (args : List Value) : Option Value := args.head?.bind p.answer

end Primitive

namespace Command

def candidate (ret param : Ty) (action : Primitive) : Candidate := ⟨⟨[param], ret⟩, action⟩

def anyList : Ty := .list .void

/-- a map of anything to anything -/
def anyMap : Ty := .map .void .void

/-- the functions that the language comes with -/
def standard : List Command :=
  [⟨"int", .overloads
    [candidate .int .int .intOfInt,
     candidate .int .string .intOfStr,
     candidate .int .dbl .intOfDbl,
     candidate .int .bool .intOfBool,
     candidate .int .char .intOfChar]⟩,
   ⟨"str", .overloads
    [candidate .string .string .strOfStr,
     candidate .string .int .strOfScalar,
     candidate .string .dbl .strOfScalar,
     candidate .string .bool .strOfScalar,
     candidate .string .char .strOfScalar,
     candidate .string anyList .strOfContainer,
     candidate .string anyMap .strOfContainer]⟩,
   ⟨"dbl", .overloads
    [candidate .dbl .dbl .dblOfDbl,
     candidate .dbl .int .dblOfInt,
     candidate .dbl .string .dblOfStr]⟩,
   ⟨"len", .overloads
    [candidate .int anyList .len,
     candidate .int anyMap .len]⟩]

/-- the function of this name that the language comes with -/
def standard? (name : String) : Option Command := standard.find? (·.name == name)

end Command

end Parlance
