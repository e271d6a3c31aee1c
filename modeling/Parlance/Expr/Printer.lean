import Parlance.Expr.Basic
import Parlance.Number.Decimal
import Parlance.Number.Integer
import Parlance.Text.Quoted

/-!
# The text of expressions

`Expr.display` writes an expression as a tree: a bracket holds an operator or the name of a form
and then its parts.  A chain of comparisons keeps its operators between its operands, and a slice
writes an underscore for a bound that is not there.
-/

namespace Parlance

/-- the text of a variable -/
def VarRef.display : VarRef → String
  | .name n => n
  | .arg index => "$" ++ String.ofList (Nat.toDigits 10 index)
  | .context n => "$" ++ n

def assignSymbol : Option BinaryOp → String
  | none => "="
  | some op => op.symbol ++ "="

namespace Expr

mutual

def display : Expr → String
  | int i => Integer.display i
  | dbl d => String.ofList d.exactText
  | bool b => if b then "true" else "false"
  | char c => String.ofList (Text.quotedChar c)
  | str s => String.ofList (Text.quotedString s.toList)
  | list items => "[" ++ displayItems items ++ "]"
  | var ref => ref.display
  | unary op operand => "(" ++ op.symbol ++ " " ++ operand.display ++ ")"
  | binary op lhs rhs => "(" ++ op.symbol ++ " " ++ lhs.display ++ " " ++ rhs.display ++ ")"
  | assign op place value =>
    "(" ++ assignSymbol op ++ " " ++ place.display ++ " " ++ value.display ++ ")"
  | ternary cond yes no =>
    "(? " ++ cond.display ++ " " ++ yes.display ++ " " ++ no.display ++ ")"
  | comparison [] _ => "()"
  | comparison (first :: others) ops => "(" ++ first.display ++ displayChain others ops ++ ")"
  | call callee args => "(call " ++ callee.display ++ displayArgs args ++ ")"
  | subscript base index => "(index " ++ base.display ++ " " ++ index.display ++ ")"
  | slice base start stop =>
    "(slice " ++ base.display ++ " " ++ displayBound start ++ " " ++ displayBound stop ++ ")"
  | member base name => "(. " ++ base.display ++ " " ++ name ++ ")"

/-- several trees with commas between them -/
def displayItems : List Expr → String
  | [] => ""
  | [item] => item.display
  | item :: items => item.display ++ ", " ++ displayItems items

/-- several trees, each after a space -/
def displayArgs : List Expr → String
  | [] => ""
  | arg :: args => " " ++ arg.display ++ displayArgs args

/-- the operands of a chain after the first, each after its operator -/
def displayChain : List Expr → List CompareOp → String
  | [], _ => ""
  | operand :: operands, ops =>
    " " ++ (ops.head?.map CompareOp.symbol).getD "" ++ " " ++ operand.display ++
      displayChain operands ops.tail

/-- a bound of a slice -/
def displayBound : Option Expr → String
  | some bound => bound.display
  | none => "_"

end

end Expr

end Parlance
