import Parlance.Number.Double

/-!
# Expressions

* `UnaryOp`, `BinaryOp`, `CompareOp`   the operators and their symbols;
* `VarRef`                             what a variable stands for;
* `Expr`                               expressions.

A chain of comparisons is one expression: its operands, and the operators between them.
-/

namespace Parlance

/-- an operator before its operand -/
inductive UnaryOp where
  | neg
  | plus
  | not
  | bitNot
deriving DecidableEq

def UnaryOp.symbol : UnaryOp → String
  | neg => "-"
  | plus => "+"
  | not => "!"
  | bitNot => "~"

/-- an operator between two operands -/
inductive BinaryOp where
  | add
  | sub
  | mul
  | div
  | rem
  | pow
  | shl
  | shr
  | bitAnd
  | bitOr
  | bitXor
  | and
  | or
  | pipeline
deriving DecidableEq

def BinaryOp.symbol : BinaryOp → String
  | add => "+"
  | sub => "-"
  | mul => "*"
  | div => "/"
  | rem => "%"
  | pow => "**"
  | shl => "<<"
  | shr => ">>"
  | bitAnd => "&"
  | bitOr => "|"
  | bitXor => "^"
  | and => "&&"
  | or => "||"
  | pipeline => "|>"

/-- an operator of a comparison -/
inductive CompareOp where
  | eq
  | ne
  | lt
  | gt
  | le
  | ge
deriving DecidableEq

def CompareOp.symbol : CompareOp → String
  | eq => "=="
  | ne => "!="
  | lt => "<"
  | gt => ">"
  | le => "<="
  | ge => ">="

/-- What a variable stands for: a global, function or command by its name, an argument of the
running command by its number, or a part of the invocation by its name. -/
inductive VarRef where
  | name (name : String)
  | arg (index : Nat)
  | context (name : String)
deriving DecidableEq

/-- an expression -/
inductive Expr where
  | int (i : Int64)
  | dbl (d : Double)
  | bool (b : Bool)
  | char (c : Char)
  | str (s : String)
  | list (items : List Expr)
  | var (ref : VarRef)
  | unary (op : UnaryOp) (operand : Expr)
  | binary (op : BinaryOp) (lhs rhs : Expr)
  /-- with an operator, the new value is made from the old one -/
  | assign (op : Option BinaryOp) (place value : Expr)
  | ternary (cond yes no : Expr)
  | comparison (operands : List Expr) (ops : List CompareOp)
  | call (callee : Expr) (args : List Expr)
  | subscript (base index : Expr)
  | slice (base : Expr) (start stop : Option Expr)
  | member (base : Expr) (name : String)

end Parlance
