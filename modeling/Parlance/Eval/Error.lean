import Parlance.Expr.Basic
import Parlance.Number.Integer
import Parlance.Ty.Basic

/-!
# Why an evaluation fails

`EvalError` names the cause, `EvalError.message` says it.
-/

namespace Parlance

/-- how many arguments a method takes -/
inductive Arity where
  | exactly (n : Nat)
  | atLeast (n : Nat)
deriving DecidableEq

def countText (n : Nat) : String := String.ofList (Nat.toDigits 10 n)

def Arity.text : Arity → String
  | exactly n => countText n
  | atLeast n => "at least " ++ countText n

/-- the greatest depth at which a command's body runs -/
def maxCallDepth : Nat := 64

/-- the time that one invocation may take, in milliseconds -/
def timeLimit : Nat := 750

/-- why an evaluation fails -/
inductive EvalError where
  | unresolvedVariable (name : String)
  | invalidUnary (op : UnaryOp) (ty : Ty)
  | invalidBinary (op : BinaryOp) (lhs rhs : Ty)
  | invalidComparison (op : CompareOp) (lhs rhs : Ty)
  | indexOutOfRange (index : Int64) (len : Nat)
  | missingKey (key : String)
  | invalidIndexType (base index : Ty)
  | notIndexable (ty : Ty)
  | notSliceable (ty : Ty)
  | sliceIndexNotInteger (ty : Ty)
  | notCallable (ty : Ty)
  | noMatchingOverload (name : String) (args : List Ty)
  | callFailed (name : String)
  | assignToRvalue
  | assignTypeMismatch (place value : Ty)
  | divisionByZero
  | overflow (symbol : String)
  | invalidCondition (ty : Ty)
  | conflictingListTypes (elem item : Ty)
  | noSuchMethod (ty : Ty) (name : String)
  | methodArity (name : String) (expected : Arity) (found : Nat)
  | appendTypeMismatch (list value : Ty)
  | recursionLimit
  | timeLimit
  | memberAccess (name : String)
  | argumentOutOfRange (index count : Nat)
deriving DecidableEq

namespace EvalError

/-- a type in quotation marks -/
def inQuotes (ty : Ty) : String := "'" ++ ty.display ++ "'"

def message : EvalError → String
  | unresolvedVariable name => "variable '" ++ name ++ "' not found"
  | invalidUnary op ty => "invalid unary '" ++ op.symbol ++ "' on type " ++ inQuotes ty
  | invalidBinary op lhs rhs =>
    "invalid binary '" ++ op.symbol ++ "' between types " ++ inQuotes lhs ++ " and " ++ inQuotes rhs
  | invalidComparison op lhs rhs =>
    "cannot compare " ++ inQuotes lhs ++ " and " ++ inQuotes rhs ++ " with '" ++ op.symbol ++ "'"
  | indexOutOfRange index len =>
    "index " ++ Integer.display index ++ " out of range for length " ++ countText len
  | missingKey key => "key " ++ key ++ " not found"
  | invalidIndexType base index => "cannot index " ++ inQuotes base ++ " with " ++ inQuotes index
  | notIndexable ty => "type " ++ inQuotes ty ++ " cannot be indexed"
  | notSliceable ty => "type " ++ inQuotes ty ++ " cannot be sliced"
  | sliceIndexNotInteger ty => "slice bounds must be integers, found " ++ inQuotes ty
  | notCallable ty => "type " ++ inQuotes ty ++ " is not callable"
  | noMatchingOverload name args =>
    "no matching function for call to '" ++ name ++ "' with arguments (" ++ Ty.displayAll args ++
      ")"
  | callFailed name => "call to '" ++ name ++ "' produced no value"
  | assignToRvalue => "cannot assign to an rvalue"
  | assignTypeMismatch place value =>
    "cannot assign a value of type " ++ inQuotes value ++ " to a slot of type " ++ inQuotes place
  | divisionByZero => "division by zero"
  | overflow symbol => "integer overflow in '" ++ symbol ++ "'"
  | invalidCondition ty => "condition must be a bool, found " ++ inQuotes ty
  | conflictingListTypes elem item =>
    "list elements have conflicting types " ++ inQuotes elem ++ " and " ++ inQuotes item
  | noSuchMethod ty name => "type " ++ inQuotes ty ++ " has no method '" ++ name ++ "'"
  | methodArity name expected found =>
    "method '" ++ name ++ "' expects " ++ expected.text ++ " argument(s), found " ++ countText found
  | appendTypeMismatch list value =>
    "cannot append a value of type " ++ inQuotes value ++ " to " ++ inQuotes list
  | recursionLimit => "call depth limit of " ++ countText maxCallDepth ++ " exceeded"
  | timeLimit => "execution time limit of " ++ countText Parlance.timeLimit ++ " ms exceeded"
  | memberAccess name => "member '" ++ name ++ "' can only be called"
  | argumentOutOfRange index count =>
    "macro argument $" ++ countText index ++ " out of range (have " ++ countText count ++ ")"

end EvalError

end Parlance
