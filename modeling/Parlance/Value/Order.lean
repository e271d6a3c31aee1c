import Parlance.Value.Basic

/-!
# The order of values

* `Value.compare`       values of different kinds stand in the order of their types; within a kind
                        the content decides, from the left; functions stand in the order of their
                        names, and doubles in the total order, so that each can key a map;
* `Value.lookup?`       what the entries of a map hold for a key;
* `Value.insertEntry`   the entries with a key bound to a value: where the key is there already, the
                        old key stays;
* `Value.ofEntries`     the map of a list of bindings.
-/

namespace Parlance.Value

mutual

/-- the order of values -/
def compare : Value → Value → Ordering
  | bool a, bool b => Ord.compare a b
  | char a, char b => Ord.compare a.toNat b.toNat
  | int a, int b => Ord.compare a.toInt b.toInt
  | dbl a, dbl b => a.totalCompare b
  | list s xs, list t ys => (s.compare t).then (compareItems xs ys)
  | map k s xs, map l t ys => ((k.compare l).then (s.compare t)).then (compareEntries xs ys)
  | function c, function d => Ord.compare c.name d.name
  | a, b => a.ty.compare b.ty

/-- the lexicographic order of lists of values -/
def compareItems : List Value → List Value → Ordering
  | [], [] => .eq
  | [], _ :: _ => .lt
  | _ :: _, [] => .gt
  | x :: xs, y :: ys => (compare x y).then (compareItems xs ys)

/-- the lexicographic order of lists of bindings -/
def compareEntries : List (Value × Value) → List (Value × Value) → Ordering
  | [], [] => .eq
  | [], _ :: _ => .lt
  | _ :: _, [] => .gt
  | (k, x) :: xs, (l, y) :: ys =>
    ((compare k l).then (compare x y)).then (compareEntries xs ys)

end

instance : Ord Value := ⟨compare⟩

/-- do two values have the same place in the order -/
def same (a b : Value) : Bool := compare a b == .eq

instance : BEq Value := ⟨same⟩

/-! ## Entries of maps -/

/-- what the entries hold for a key -/
def lookup? (key : Value) : List (Value × Value) → Option Value
  | [] => none
  | (k, v) :: rest => if key.compare k = .eq then some v else lookup? key rest

/-- the entries with `key` bound to `value`, at its place in the order of keys -/
def insertEntry (key value : Value) : List (Value × Value) → List (Value × Value)
  | [] => [(key, value)]
  | (k, v) :: rest =>
    match key.compare k with
    | .lt => (key, value) :: (k, v) :: rest
    | .eq => (k, value) :: rest
    | .gt => (k, v) :: insertEntry key value rest

/-- the map with the given bindings, the last of several for one key counting -/
def ofEntries (key elem : Ty) (bindings : List (Value × Value)) : Value :=
  map key elem (bindings.foldl (fun entries b => insertEntry b.1 b.2 entries) [])

end Parlance.Value
