import Parlance.Eval.Basic
import Parlance.Ty.Reader

/-!
# Sessions

* `Session`              the registry and the globals that all invocations share;
* `Session.evaluate`     the value of a text, and the session after its evaluation;
* `Session.run`          what a command answers, and the session after it;
* `Session.addGlobal`, `declareGlobal`   new globals;
* `Outcome α`            a result, the session after it and the account of what happened.

A global is an identifier other than the four names of the parts of an invocation.
-/

namespace Parlance

/-- The registry and the globals that all invocations share. -/
structure Session where
  registry : Registry
  globals : Table Value

/-- a result, the session after it, what was run and which lists got longer on the way, the latest
first, and how often the clock was read -/
structure Outcome (α : Type) where
  result : α
  session : Session
  calls : List Invocation
  growths : List Growth
  readings : Nat

/-- a result of nothing but a change to the session -/
def Outcome.quiet {α : Type} (result : α) (s : Session) : Outcome α := ⟨result, s, [], [], 0⟩

/-- why a text has no value -/
inductive Failure where
  | parse (error : ParseError)
  | eval (error : EvalError)

def Failure.message : Failure → String
  | parse error => error.message
  | eval error => error.message

namespace Session

/-- the session in which nothing has been defined -/
def fresh : Session := ⟨.fresh, .empty⟩

def perform {α : Type} (s : Session) (step : EvalM α) : Outcome (Except EvalError α) :=
  match step (.start s.globals) with
  | (result, m) => ⟨result, { s with globals := m.globals }, m.calls, m.growths, m.readings⟩

def evaluateExpr (s : Session) (ctx : Context) (e : Expr) : Outcome (Except EvalError Value) :=
  s.perform (Eval.evalIn s.registry ctx e)

/-- The value of a text.  A text that is no expression changes nothing. -/
def evaluate (s : Session) (ctx : Context) (text : String) : Outcome (Except Failure Value) :=
  match Expr.ofText text with
  | .error e => .quiet (.error (.parse e)) s
  | .ok e =>
    let o := s.evaluateExpr ctx e
    { o with result := o.result.mapError .eval }

/-- what a command answers for the arguments in the context, if it answers anything -/
def run (s : Session) (ctx : Context) (c : Command) : Outcome (Option Value) :=
  let o := s.perform (Eval.runIn s.registry ctx c)
  { o with result := o.result.toOption.bind id }

/-! ## Globals -/

/-- the names of the parts of an invocation -/
def contextNames : List String := ["user", "self", "channel", "args"]

def isIdentifier (name : String) : Bool :=
  match name.toList with
  | [] => false
  | c :: cs => Lexeme.isWordStart c && cs.all Lexeme.isWordPart

/-- binds a global that is not there yet -/
def addGlobal (s : Session) (name : String) (v : Value) : Except RegistryError Session :=
  if !isIdentifier name || contextNames.contains name then .error (.reservedGlobal name)
  else if s.globals.contains name then .error (.globalRedefinition name)
  else .ok { s with globals := s.globals.insert name v }

/-- binds a global that is not there yet to the value that a fresh global of the type holds -/
def declareGlobal (s : Session) (name : String) (t : Ty) : Except RegistryError Session :=
  match Value.zero? t with
  | some v => s.addGlobal name v
  | none => .error (.reservedGlobal name)

end Session

end Parlance
