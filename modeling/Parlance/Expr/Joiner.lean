import Parlance.Expr.Basic
import Parlance.Token.Basic

/-!
# What joins an operand to what follows it

* `Joiner`             the operators and forms that continue an expression;
* `Joiner.ofKind?`     the joiner that a token stands for;
* `Joiner.strength`    how tightly it binds.
-/

namespace Parlance

/-- what continues an expression after an operand -/
inductive Joiner where
  | member
  | call
  | bracket
  | binary (op : BinaryOp)
  | compare (op : CompareOp)
  | assign (op : Option BinaryOp)
  | ternary
deriving DecidableEq

/-- how tightly a binary operator binds -/
def BinaryOp.strength : BinaryOp → Nat
  | pow => 2600
  | mul | div | rem => 2400
  | add | sub => 1800
  | shl | shr => 1600
  | bitAnd => 1400
  | bitXor => 1200
  | bitOr => 1000
  | and => 600
  | or => 400
  | pipeline => 1

namespace Joiner

/-- how tightly subscripts and slices bind; an operand of a unary operator binds at least so -/
def bracketStrength : Nat := 2800

/-- how tightly comparisons bind -/
def compareStrength : Nat := 800

/-- how tightly assignments bind -/
def assignStrength : Nat := 200

/-- how tightly the choice between two expressions binds -/
def ternaryStrength : Nat := 10

/-- how tightly a joiner binds -/
def strength : Joiner → Nat
  | member => 8000
  | call => 3000
  | bracket => bracketStrength
  | binary op => op.strength
  | compare _ => compareStrength
  | assign _ => assignStrength
  | ternary => ternaryStrength

/-- does it join two operands of a comparison -/
def isCompare : Joiner → Bool
  | compare _ => true
  | _ => false

def ofSymbol? : Symbol → Option Joiner
  | .dot => some member
  | .leftParen => some call
  | .leftSquare => some bracket
  | .starStar => some (binary .pow)
  | .star => some (binary .mul)
  | .slash => some (binary .div)
  | .percent => some (binary .rem)
  | .plus => some (binary .add)
  | .minus => some (binary .sub)
  | .shiftLeft => some (binary .shl)
  | .shiftRight => some (binary .shr)
  | .ampersand => some (binary .bitAnd)
  | .caret => some (binary .bitXor)
  | .pipe => some (binary .bitOr)
  | .equalEqual => some (compare .eq)
  | .bangEqual => some (compare .ne)
  | .less => some (compare .lt)
  | .greater => some (compare .gt)
  | .lessEqual => some (compare .le)
  | .greaterEqual => some (compare .ge)
  | .andAnd => some (binary .and)
  | .orOr => some (binary .or)
  | .equal => some (assign none)
  | .plusEqual => some (assign (some .add))
  | .minusEqual => some (assign (some .sub))
  | .starEqual => some (assign (some .mul))
  | .slashEqual => some (assign (some .div))
  | .percentEqual => some (assign (some .rem))
  | .starStarEqual => some (assign (some .pow))
  | .shiftLeftEqual => some (assign (some .shl))
  | .shiftRightEqual => some (assign (some .shr))
  | .ampersandEqual => some (assign (some .bitAnd))
  | .pipeEqual => some (assign (some .bitOr))
  | .caretEqual => some (assign (some .bitXor))
  | .question => some ternary
  | .pipeline => some (binary .pipeline)
  | _ => none

def ofKind? : TokenKind → Option Joiner
  | .symbol s => ofSymbol? s
  | _ => none

end Joiner

end Parlance
