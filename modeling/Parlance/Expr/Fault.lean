import Parlance.Expr.Literal
import Parlance.Token.Basic

/-!
# What can be wrong with a text

* `Problem`, `Fault`   a problem, and a problem with the token that it was found at;
* `Verdict α`          a result, or the faults of everything that failed;
* `Verdict.both`       two results, or the faults of both in order;
* `ParseError`         the faults of a text that is no expression, and the first one complained of.
-/

namespace Parlance

/-- what can be wrong at a token -/
inductive Problem where
  | endOfInput
  | invalidToken (cause : LexError)
  | unexpectedToken
  | trailingToken
  | badNumber (fault : Literal.NumberFault)
  | badChar
  | badArgument
  | badVariable
  | noRightParen
  | noListMark
  | noArgumentMark
  | noRightSquare
  | noSubscriptMark
  | noMemberName
  | noElse
deriving DecidableEq

/-- a problem and the token at which it was found -/
structure Fault where
  token : Token
  problem : Problem
deriving DecidableEq

def Fault.message (f : Fault) : String :=
  let literal := f.token.literal
  match f.problem with
  | .endOfInput => "unexpected end of input"
  | .invalidToken cause => "invalid token '" ++ literal ++ "': " ++ cause.message
  | .unexpectedToken => "unexpected token '" ++ literal ++ "'"
  | .trailingToken => "unexpected token '" ++ literal ++ "' after expression"
  | .badNumber fault => fault.message literal
  | .badChar => "invalid character literal '" ++ literal ++ "'"
  | .badArgument => "invalid numeric literal '" ++ literal ++ "' after '$'"
  | .badVariable => "invalid token '" ++ literal ++ "' after '$'"
  | .noRightParen => "expected ')'"
  | .noListMark => "expected ',' or ']'"
  | .noArgumentMark => "expected ',' or ')'"
  | .noRightSquare => "expected ']'"
  | .noSubscriptMark => "expected either ']' or ':', found '" ++ literal ++ "'"
  | .noMemberName => "expected identifier after '.', found '" ++ literal ++ "'"
  | .noElse => "expected ':' after '?'"

/-- what is said of several faults -/
def Fault.report (faults : List Fault) : String := "; ".intercalate (faults.map message)

/-- a result, or the faults of everything that failed -/
abbrev Verdict (α : Type) := Except (List Fault) α

namespace Verdict

variable {α β : Type}

/-- two results, or the faults of the first and then of the second -/
def both : Verdict α → Verdict β → Verdict (α × β)
  | .ok a, .ok b => .ok (a, b)
  | .ok _, .error gs => .error gs
  | .error fs, .ok _ => .error fs
  | .error fs, .error gs => .error (fs ++ gs)

/-- a result that may be left out -/
def optional : Option (Verdict α) → Verdict (Option α)
  | none => .ok none
  | some v => v.map some

def faults : Verdict α → List Fault
  | .ok _ => []
  | .error fs => fs

@[simp] theorem faults_both (v : Verdict α) (w : Verdict β) :
    (both v w).faults = v.faults ++ w.faults := by
  cases v <;> cases w <;> simp [both, faults]

@[simp] theorem faults_map (f : α → β) (v : Verdict α) :
    faults (Except.map f v) = v.faults := by
  cases v <;> rfl

end Verdict

/-- The faults of a text that is no expression, and the fault that was complained of first. -/
structure ParseError where
  faults : List Fault
  first : Option Fault

namespace ParseError

/-- what is said of the text -/
def message (e : ParseError) : String := Fault.report e.faults

/-- the place of the first complaint -/
def span? (e : ParseError) : Option (Nat × Nat) := e.first.map fun f => f.token.span

end ParseError

end Parlance
