import Parlance.Eval.Error
import Parlance.Number.Arithmetic
import Parlance.Ty.Erasure
import Parlance.Value.Order

/-!
# Operators on values

* `Value.unary op v`        an operator before its operand;
* `Value.binary op v w`     an arithmetic operator; `&&`, `||` and `|>` decide what is evaluated, so
                            they are no business of values and are refused here;
* `Value.compares op v w`   does a comparison hold;
* `Value.listOf items`      the list of given items, whose types have to agree.

Integers stay integers, and meet doubles as doubles.  A character moves by an integer.  Lists are
joined where their element types agree.
-/

namespace Parlance.Value

/-- an operator before its operand -/
def unary : UnaryOp → Value → Except EvalError Value
  | .neg, int i =>
    match Integer.neg? i with
    | some j => .ok (int j)
    | none => .error (.overflow UnaryOp.neg.symbol)
  | .neg, dbl d => .ok (dbl d.neg)
  | .plus, int i => .ok (int i)
  | .plus, dbl d => .ok (dbl d)
  | .not, bool b => .ok (bool !b)
  | .bitNot, int i => .ok (int (~~~i))
  | op, v => .error (.invalidUnary op v.ty)

/-! ## Arithmetic -/

/-- an integer that has to be there -/
def checked (op : BinaryOp) : Option Int64 → Except EvalError Value
  | some i => .ok (int i)
  | none => .error (.overflow op.symbol)

/-- An operator on two integers.  A power with a negative exponent is a double. -/
def integerOp (op : BinaryOp) (a b : Int64) : Except EvalError Value :=
  match op with
  | .add => checked op (Integer.add? a b)
  | .sub => checked op (Integer.sub? a b)
  | .mul => checked op (Integer.mul? a b)
  | .div => if b = 0 then .error .divisionByZero else checked op (Integer.div? a b)
  | .rem => if b = 0 then .error .divisionByZero else checked op (Integer.rem? a b)
  | .pow =>
    if b < 0 then .ok (dbl ((Double.ofInt a.toInt).pow (Double.ofInt b.toInt)))
    else checked op (Integer.pow? a b.toInt.toNat)
  | .shl => checked op (Integer.shl? a b)
  | .shr => checked op (Integer.shr? a b)
  | .bitAnd => .ok (int (a &&& b))
  | .bitOr => .ok (int (a ||| b))
  | .bitXor => .ok (int (a ^^^ b))
  | .and | .or | .pipeline => .error (.invalidBinary op .int .int)

/-- an operator on two doubles -/
def doubleOp (op : BinaryOp) (a b : Double) : Except EvalError Value :=
  match op with
  | .add => .ok (dbl (a.add b))
  | .sub => .ok (dbl (a.sub b))
  | .mul => .ok (dbl (a.mul b))
  | .div => .ok (dbl (a.div b))
  | .rem => .ok (dbl (a.rem b))
  | .pow => .ok (dbl (a.pow b))
  | _ => .error (.invalidBinary op .dbl .dbl)

def ofCodePoint? (n : Int) : Option Value :=
  if 0 ≤ n ∧ n.toNat.isValidChar then some (char (Char.ofNat n.toNat)) else none

def moved (op : BinaryOp) (c : Char) (i : Int) : Except EvalError Value :=
  match ofCodePoint? (c.toNat + i) with
  | some v => .ok v
  | none => .error (.overflow op.symbol)

/-- an arithmetic operator on two values -/
def binary (op : BinaryOp) (v w : Value) : Except EvalError Value :=
  match v, w with
  | int a, int b => integerOp op a b
  | dbl a, dbl b => doubleOp op a b
  | int a, dbl b => doubleOp op (.ofInt a.toInt) b
  | dbl a, int b => doubleOp op a (.ofInt b.toInt)
  | char c, int i =>
    if op = .add then moved op c i.toInt
    else if op = .sub then moved op c (-i.toInt)
    else .error (.invalidBinary op .char .int)
  | int i, char c =>
    if op = .add then moved op c i.toInt else .error (.invalidBinary op .int .char)
  | list s xs, list t ys =>
    if op = .add then
      match Ty.unify s t with
      | some elem => .ok (list elem (xs ++ ys))
      | none => .error (.invalidBinary op (.list s) (.list t))
    else .error (.invalidBinary op (.list s) (.list t))
  | v, w => .error (.invalidBinary op v.ty w.ty)

/-! ## Comparison -/

/-- does an operator hold of things in this order; things without an order are only unequal -/
def holds : CompareOp → Option Ordering → Bool
  | .eq, o => o == some .eq
  | .ne, o => o != some .eq
  | .lt, o => o == some .lt
  | .gt, o => o == some .gt
  | .le, o => o == some .lt || o == some .eq
  | .ge, o => o == some .gt || o == some .eq

/-- how two values stand to each other, where they can be compared at all: numbers as numbers,
characters and integers by code point, and other values in the order of values if their types
agree -/
def order? : Value → Value → Option (Option Ordering)
  | int a, dbl b => some ((Double.ofInt a.toInt).compare? b)
  | dbl a, int b => some (a.compare? (.ofInt b.toInt))
  | dbl a, dbl b => some (a.compare? b)
  | char a, int b => some (some (Ord.compare (a.toNat : Int) b.toInt))
  | int a, char b => some (some (Ord.compare a.toInt (b.toNat : Int)))
  | function _, _ => none
  | _, function _ => none
  | v, w => if (Ty.unify v.ty w.ty).isSome then some (some (compare v w)) else none

/-- does a comparison hold -/
def compares (op : CompareOp) (v w : Value) : Except EvalError Bool :=
  match order? v w with
  | some o => .ok (holds op o)
  | none => .error (.invalidComparison op v.ty w.ty)

/-! ## Lists -/

def listOf (items : List Value) : Except EvalError Value :=
  match Ty.unifyAll .void (items.map ty) with
  | .ok elem => .ok (list elem items)
  | .error (elem, item) => .error (.conflictingListTypes elem item)

def append (elem : Ty) (items more : List Value) : Except EvalError Value :=
  match Ty.unifyAll elem (more.map ty) with
  | .ok wider => .ok (list wider (items ++ more))
  | .error (_, item) => .error (.appendTypeMismatch (.list elem) item)

end Parlance.Value
