import Parlance.Ty.Basic

/-!
# Implicit conversion

* `Ty.castDist a b`    what it costs to pass a value of type `a` where `b` is expected, or nothing
                       if that cannot be done;
* `Ty.castDistAll as ps`   the cost for a whole argument list.

The same type costs nothing, an integer for a double 1, a list for a list of anything 2, a map
for one that leaves its keys or its items open 2, and for one that leaves both open 3.
-/

namespace Parlance.Ty

/-- the cost of passing a value of type `a` where `b` is expected -/
def castDist (a b : Ty) : Option Nat :=
  if a = b then some 0
  else match a, b with
    | int, dbl => some 1
    | list _, list elem => if elem.isVoid then some 2 else none
    | map k e, map l f =>
      match l.isVoid, f.isVoid with
      | true, true => some 3
      | false, true => if k = l then some 2 else none
      | true, false => if e = f then some 2 else none
      | false, false => none
    | _, _ => none

/-- the cost of passing arguments of the types `as` for parameters of the types `ps` -/
def castDistAll : List Ty → List Ty → Option Nat
  | [], [] => some 0
  | a :: as, p :: ps =>
    match castDist a p, castDistAll as ps with
    | some m, some n => some (m + n)
    | _, _ => none
  | _, _ => none

@[simp] theorem castDist_self (a : Ty) : castDist a a = some 0 := by simp [castDist]

end Parlance.Ty
