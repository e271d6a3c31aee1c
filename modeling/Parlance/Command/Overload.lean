import Parlance.Command.Basic
import Parlance.Ty.Cast

/-!
# Choosing among several functions of one name

* `Candidate.cost? c args`       what it costs to pass arguments of these types to the candidate;
* `Candidate.cheapest? cs args`  the candidate that costs least, with its cost; of several the one
                                 that stands first;
* `Candidate.choose? cs args`    that candidate alone.
-/

namespace Parlance.Candidate

/-- what it costs to pass arguments of the given types, if it can be done at all -/
def cost? (c : Candidate) (args : List Ty) : Option Nat := Ty.castDistAll args c.signature.params

/-- the first of the candidates that cost least, with its cost -/
def cheapest? (args : List Ty) : List Candidate → Option (Nat × Candidate)
  | [] => none
  | c :: cs =>
    match c.cost? args, cheapest? args cs with
    | none, best => best
    | some m, none => some (m, c)
    | some m, some (n, d) => if m ≤ n then some (m, c) else some (n, d)

/-- the first of the candidates that cost least -/
def choose? (cs : List Candidate) (args : List Ty) : Option Candidate :=
  (cheapest? args cs).map (·.2)

end Parlance.Candidate
