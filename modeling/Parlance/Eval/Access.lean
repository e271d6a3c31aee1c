import Parlance.Eval.Error
import Parlance.Value.Order
import Parlance.Value.Printer

/-!
# Parts of values

* `Value.position? i n`       the place that the index `i` means among `n`: a negative one counts
                              from the end;
* `Value.subscript v i`       the item or entry of `v` at `i`;
* `Value.slice v start stop`  the items between two bounds, which are moved into range;
* `Value.at? path v`          the part of `v` at the end of a path of indices;
* `Value.slot fill path v`    the same, where the last index may be a key that is not there yet and
                              that is to hold `fill`;
* `Value.put new path v`      the value with that part replaced.
-/

namespace Parlance.Value

/-- the place that an index means among `len` places -/
def position? (index : Int64) (len : Nat) : Option Nat :=
  let i := if index < 0 then index.toInt + len else index.toInt
  if 0 ≤ i ∧ i < len then some i.toNat else none

/-- the item of a list or the entry of a map at an index -/
def subscript (base index : Value) : Except EvalError Value :=
  match base with
  | list elem items =>
    match index with
    | int i =>
      match (position? i items.length).bind (items[·]?) with
      | some v => .ok v
      | none => .error (.indexOutOfRange i items.length)
    | index => .error (.invalidIndexType (.list elem) index.ty)
  | map key elem entries =>
    if index.ty = key then
      match lookup? index entries with
      | some v => .ok v
      | none => .error (.missingKey index.display)
    else .error (.invalidIndexType (.map key elem) index.ty)
  | base => .error (.notIndexable base.ty)

/-! ## Slices -/

/-- a bound of a slice, counted from the end if negative, and moved into the range up to `len` -/
def clamp (bound : Int64) (len : Nat) : Nat :=
  let i := if bound < 0 then bound.toInt + len else bound.toInt
  min i.toNat len

/-- a bound of a slice of `len` items -/
def bound (len default : Nat) : Option Value → Except EvalError Nat
  | none => .ok default
  | some (int i) => .ok (clamp i len)
  | some v => .error (.sliceIndexNotInteger v.ty)

/-- the items from `start` up to but not including `stop` -/
def slice (base : Value) (start stop : Option Value) : Except EvalError Value :=
  match base with
  | list elem items => do
    let lo ← bound items.length 0 start
    let hi ← bound items.length items.length stop
    return list elem ((items.take hi).drop lo)
  | base => .error (.notSliceable base.ty)

/-! ## Places -/

/-- the part at the end of a path -/
def at? : List Value → Value → Except EvalError Value
  | [], v => .ok v
  | index :: path, v => do at? path (← subscript v index)

/-- The part at the end of a path that is to be written.  A key that is missing at the very end is
taken to hold `fill`, if its type is the one that the map holds. -/
def slot (fill : Option Value) : List Value → Value → Except EvalError Value
  | [], v => .ok v
  | [index], v =>
    match v, fill with
    | map key elem entries, some new =>
      if index.ty = key ∧ (lookup? index entries).isNone then
        if new.ty = elem then .ok new else .error (.assignTypeMismatch elem new.ty)
      else subscript v index
    | v, _ => subscript v index
  | index :: path, v => do slot fill path (← subscript v index)

/-- The value with the part at the end of a path replaced.  A key that is missing at the very end
is put in; a path that leads nowhere changes nothing. -/
def put (new : Value) : List Value → Value → Value
  | [], _ => new
  | index :: path, v =>
    match v with
    | list elem items =>
      match index with
      | int i =>
        match position? i items.length with
        | some n => list elem (items.modify n (put new path))
        | none => list elem items
      | _ => list elem items
    | map key elem entries =>
      match lookup? index entries with
      | some old => map key elem (insertEntry index (put new path old) entries)
      | none => if path.isEmpty then map key elem (insertEntry index new entries) else v
    | v => v

end Parlance.Value
