import Parlance.Command.Standard
import Parlance.Eval.Access
import Parlance.Eval.Machine
import Parlance.Eval.Operators
import Parlance.Expr.Parser
import Parlance.Registry.Basic

/-!
# Evaluation

* `Eval.callable?`    the function that a name stands for;
* `Eval.lookup`       what a variable stands for;
* `Eval.store`, `Eval.extend`   put a value in a place, or more items in the list that is there;
* `Eval.eval`         the meaning of an expression, given what a call does;
* `Eval.runBody`      what running a command does, given what an expression in its words does;
* `Eval.invoke`       a call, with so many levels of calls allowed below it;
* `Eval.evalIn`       the meaning of an expression in a context, calls included.

The meaning of an expression is a recursion on the expression.  A call may parse and evaluate
expressions larger than the one that it stands in, but it does so one level deeper, and the levels
are counted: so the two recursions, on the expression and on the levels, do not have to be mixed.
-/

namespace Parlance

namespace Eval

/-! ## Variables and places -/

/-- The function that a name stands for.  One that the language comes with is found before a command
of that name. -/
def callable? (r : Registry) (name : String) : Option Command :=
  (Command.standard? name).or ((r.find? name).map Registered.command)

/-- what a variable stands for -/
def lookup (r : Registry) (ctx : Context) (globals : Table Value) :
    VarRef → Except EvalError Value
  | .arg index =>
    match ctx.args[index]? with
    | some v => .ok v
    | none => .error (.argumentOutOfRange index ctx.args.length)
  | .context name =>
    if name = "user" then .ok (.ofString ctx.caller)
    else if name = "self" then .ok (.ofString ctx.self)
    else if name = "channel" then .ok (.ofString ctx.channel)
    else if name = "args" then .ok (.ofStrings (ctx.args.map Value.raw))
    else .error (.unresolvedVariable ("$" ++ name))
  | .name name =>
    match globals.get? name with
    | some v => .ok v
    | none =>
      match callable? r name with
      | some command => .ok (.function command)
      | none => .error (.unresolvedVariable name)

def readVar (r : Registry) (ctx : Context) (ref : VarRef) : EvalM Value := do
  EvalM.lift (lookup r ctx (← EvalM.globals) ref)

theorem readVar_apply (r : Registry) (ctx : Context) (ref : VarRef) (m : Machine) :
    readVar r ctx ref m = (lookup r ctx m.globals ref, m) := by
  rw [readVar, EvalM.bind_eq_of_ok (EvalM.globals_apply m), EvalM.lift_apply]

/-- A name that is no global's stands for the function of that name. -/
theorem lookup_callable {r : Registry} {globals : Table Value} {name : String} {c : Command}
    (hglobal : globals.get? name = none) (hc : callable? r name = some c) (ctx : Context) :
    lookup r ctx globals (.name name) = .ok (.function c) := by
  rw [lookup, hglobal]
  dsimp only
  rw [hc]

/-- The place that a name stands for: only a global is one. -/
def globalPlace (r : Registry) (ctx : Context) (name : String) : EvalM Place := do
  if (← EvalM.globals).contains name then return ⟨name, []⟩
  else
    let _ ← readVar r ctx (.name name)
    EvalM.fail .assignToRvalue

/-- the global that a place is a part of -/
def wholeOf (place : Place) : EvalM Value := do
  match (← EvalM.globals).get? place.name with
  | some whole => return whole
  | none => EvalM.fail (.unresolvedVariable place.name)

def readPlace (place : Place) : EvalM Value := do
  EvalM.lift ((← wholeOf place).slot none place.path)

/-- Puts a value in a place, whose type does not change: it has to hold a value of the same type, or
to be a missing key of a map for values of this type. -/
def store (place : Place) (value : Value) : EvalM Value := do
  let whole ← wholeOf place
  let old ← EvalM.lift (whole.slot (some value) place.path)
  if old.ty = value.ty then
    EvalM.setGlobal place.name (Value.put value place.path whole)
    return value
  else EvalM.fail (.assignTypeMismatch old.ty value.ty)

def extend (place : Place) (more : List Value) : EvalM Value := do
  let whole ← wholeOf place
  match (← EvalM.lift (whole.slot none place.path)) with
  | .list elem items => do
    let longer ← EvalM.lift (Value.append elem items more)
    EvalM.recordGrowth ⟨place, whole, longer⟩
    EvalM.setGlobal place.name (Value.put longer place.path whole)
    return longer
  | v => EvalM.fail (.noSuchMethod v.ty "append")

/-! ## Forms, given the meanings of their parts -/

def applyTo (call : Command → List Value → EvalM Value) (callee : Value) (args : List Value) :
    EvalM Value :=
  match callee with
  | .function command => call command args
  | v => EvalM.fail (.notCallable v.ty)

/-- `&&` and `||`: the second operand is evaluated unless the first one is `short` -/
def junction (op : BinaryOp) (short : Bool) (lhs rhs : EvalM Value) : EvalM Value := do
  match (← lhs) with
  | .bool b =>
    if b = short then return .bool b
    else
      match (← rhs) with
      | .bool c => return .bool c
      | v => EvalM.fail (.invalidBinary op .bool v.ty)
  | v => EvalM.fail (.invalidBinary op v.ty .bool)

/-- an operator other than `|>` between two operands -/
def operation (op : BinaryOp) (lhs rhs : EvalM Value) : EvalM Value :=
  match op with
  | .and => junction op false lhs rhs
  | .or => junction op true lhs rhs
  | op => do EvalM.lift (Value.binary op (← lhs) (← rhs))

/-- an assignment, where an operator makes the new value from the old one -/
def assignment (op : Option BinaryOp) (place : EvalM Place) (value : EvalM Value) :
    EvalM Value := do
  let place ← place
  let value ← value
  match op with
  | none => store place value
  | some op => do store place (← EvalM.lift (Value.binary op (← readPlace place) value))

def appending (place : EvalM Place) (more : EvalM (List Value)) : EvalM Value := do
  let place ← place
  let more ← more
  extend place more

/-- a number of items or entries, which has to be an integer -/
def counted : Option Int64 → Except EvalError Value
  | some i => .ok (.int i)
  | none => .error (.overflow "len")

/-- the number of items of a list or entries of a map -/
def lengthOf (v : Value) : EvalM Value :=
  match v.size? with
  | some n => EvalM.lift (counted (Numeral.toInt64? n))
  | none => EvalM.fail (.noSuchMethod v.ty "len")

/-- a method call: `len` and `append` are all there are -/
def methodCall (name : String) (base : EvalM Value) (place : EvalM Place) (count : Nat)
    (args : EvalM (List Value)) : EvalM Value :=
  if name = "len" then
    if count = 0 then do lengthOf (← base)
    else EvalM.fail (.methodArity name (.exactly 0) count)
  else if name = "append" then
    if count = 0 then EvalM.fail (.methodArity name (.atLeast 1) 0) else appending place args
  else do EvalM.fail (.noSuchMethod (← base).ty name)

/-! ## Expressions -/

section

variable (r : Registry) (ctx : Context) (call : Command → List Value → EvalM Value)

mutual

/-- The meaning of an expression, where `call` says what a call does. -/
def eval : Expr → EvalM Value
  | .int i => pure (.int i)
  | .dbl d => pure (.dbl d)
  | .bool b => pure (.bool b)
  | .char c => pure (.char c)
  | .str s => pure (.ofString s)
  | .list items => do EvalM.lift (Value.listOf (← evalAll items))
  | .var ref => readVar r ctx ref
  | .unary op operand => do EvalM.lift (Value.unary op (← eval operand))
  | .binary .pipeline lhs rhs => do
    let value ← eval lhs
    evalStage value (eval rhs) rhs
  | .binary op lhs rhs => operation op (eval lhs) (eval rhs)
  | .assign op place value => assignment op (placeOf place) (eval value)
  | .ternary cond yes no => do
    match (← eval cond) with
    | .bool true => eval yes
    | .bool false => eval no
    | v => EvalM.fail (.invalidCondition v.ty)
  | .comparison [] _ => pure (.bool true)
  | .comparison (first :: others) ops => do evalChain (← eval first) others ops
  | .call (.member base name) args =>
    methodCall name (eval base) (placeOf base) args.length (evalAll args)
  | .call callee args => do
    let callee ← eval callee
    let args ← evalAll args
    applyTo call callee args
  | .subscript base index => do
    let base ← eval base
    let index ← eval index
    EvalM.lift (Value.subscript base index)
  | .slice base start stop => do
    let base ← eval base
    let start ← evalBound start
    let stop ← evalBound stop
    EvalM.lift (Value.slice base start stop)
  | .member _ name => EvalM.fail (.memberAccess name)

/-- The last stage of a pipeline with the value that comes out of the stages before it.  A call gets
the value as its first argument; anything else, a method call included, is evaluated by `plain`
and applied to the value. -/
def evalStage (value : Value) (plain : EvalM Value) : Expr → EvalM Value
  | .call (.member _ _) _ => do applyTo call (← plain) [value]
  | .call callee args => do
    let callee ← eval callee
    let args ← evalAll args
    applyTo call callee (value :: args)
  | _ => do applyTo call (← plain) [value]

/-- the meanings of several expressions, from the left -/
def evalAll : List Expr → EvalM (List Value)
  | [] => pure []
  | e :: es => do
    let v ← eval e
    let vs ← evalAll es
    return v :: vs

/-- the meaning of an expression that may be left out -/
def evalBound : Option Expr → EvalM (Option Value)
  | none => pure none
  | some e => do return some (← eval e)

/-- The rest of a chain of comparisons after the operand with value `lhs`.  The chain ends at the
first comparison that does not hold. -/
def evalChain (lhs : Value) : List Expr → List CompareOp → EvalM Value
  | e :: es, op :: ops => do
    let rhs ← eval e
    if (← EvalM.lift (Value.compares op lhs rhs)) then evalChain rhs es ops
    else return .bool false
  | _, _ => pure (.bool true)

def placeOf : Expr → EvalM Place
  | .var (.name name) => globalPlace r ctx name
  | .subscript base index => do
    let place ← placeOf base
    let index ← eval index
    return { place with path := place.path ++ [index] }
  | _ => EvalM.fail .assignToRvalue

end

end

theorem eval_callable {r : Registry} {name : String} {c : Command} {m : Machine}
    (hglobal : m.globals.get? name = none) (hc : callable? r name = some c) (ctx : Context)
    (call : Command → List Value → EvalM Value) :
    eval r ctx call (.var (.name name)) m = (.ok (.function c), m) := by
  rw [eval, readVar_apply, lookup_callable hglobal hc]

/-! ## Calls -/

/-- Says one word.  An expression that cannot be read or fails says nothing. -/
def sayWord (evaluate : List Char → EvalM (Option Value)) (word : String) :
    EvalM (Option Value) :=
  match Expansion.meaning word.toList with
  | .said text => pure (some (Value.ofChars text))
  | .code source => do return (← evaluate source).map fun v => Value.ofString v.message

/-- says one word after another -/
def sayWords (evaluate : List Char → EvalM (Option Value)) : List String → EvalM (List Value)
  | [] => pure []
  | word :: words => do
    let said ← sayWord evaluate word
    let others ← sayWords evaluate words
    return said.toList ++ others

/-- what running a command answers for the arguments in the context -/
def runBody (evaluate : List Char → EvalM (Option Value)) (ctx : Context) (c : Command) :
    EvalM (Option Value) := do
  EvalM.record c ctx.depth
  match c.body with
  | .words words => return some (.list .string (← sayWords evaluate words))
  | .primitive _ action => return action.apply ctx.args
  | .overloads candidates =>
    return (Candidate.choose? candidates (ctx.args.map Value.ty)).bind fun candidate =>
      candidate.action.apply ctx.args

/-- The arguments with which a call runs a command.  Words are only told strings, and of several
functions one has to suit the arguments. -/
def argsFor (c : Command) (args : List Value) : Except EvalError (List Value) :=
  match c.body with
  | .words _ => .ok (args.map fun v => .ofString v.raw)
  | .primitive _ _ => .ok args
  | .overloads candidates =>
    let types := args.map Value.ty
    if (Candidate.choose? candidates types).isSome then .ok args
    else .error (.noMatchingOverload c.name types)

/-- the value of the expression that a text denotes, where `call` says what a call does; nothing if
the text denotes none or evaluation fails -/
def evalSource (r : Registry) (ctx : Context) (call : Command → List Value → EvalM Value)
    (source : List Char) : EvalM (Option Value) :=
  match Expr.ofText (String.ofList source) with
  | .ok e => EvalM.attempt (eval r ctx call e)
  | .error _ => pure none

/-- A call made in a context, with so many levels of calls allowed below the context.  The clock is
read before anything else. -/
def invoke (r : Registry) : Nat → Context → Command → List Value → EvalM Value
  | levels, ctx, c, args => EvalM.inTime ctx do
    match levels with
    | 0 => EvalM.fail .recursionLimit
    | levels + 1 =>
      let args ← EvalM.lift (argsFor c args)
      let inner := ctx.nested args
      match (← runBody (evalSource r inner (invoke r levels inner)) inner c) with
      | some v => return v
      | none => EvalM.fail (.callFailed c.name)

def levelsBelow (ctx : Context) : Nat := maxCallDepth - ctx.depth

def evalIn (r : Registry) (ctx : Context) (e : Expr) : EvalM Value :=
  eval r ctx (invoke r (levelsBelow ctx) ctx) e

/-- what running a command in a context answers, for the arguments in the context -/
def runIn (r : Registry) (ctx : Context) (c : Command) : EvalM (Option Value) :=
  runBody (evalSource r ctx (invoke r (levelsBelow ctx) ctx)) ctx c

end Eval

end Parlance
