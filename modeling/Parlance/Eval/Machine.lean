import Parlance.Eval.Clock
import Parlance.Table
import Parlance.Value.Basic

/-!
# Evaluation steps

* `Context`        what an invocation knows: who calls, where, with which arguments, how deep, and
                   how its time passes;
* `Invocation`     a command that was run, and the depth at which that happened;
* `Place`, `Growth`   a part of a global, and a list that got longer there;
* `Machine`        what evaluation can change: the globals, how often the clock was read, and the
                   account of what was run and of which lists got longer in their places;
* `EvalM α`        a step that gives an `α` or fails, and leaves a machine either way;
* `EvalM.attempt`  a step whose failure counts as giving nothing;
* `EvalM.inTime`   a step that is refused if the clock says that it comes too late.

The registry is not part of the machine: no evaluation changes it.  What a failing step has done to
the globals stays done.
-/

namespace Parlance

/-- What an invocation knows. -/
structure Context where
  caller : String
  channel : String
  self : String
  /-- the arguments of the running command -/
  args : List Value
  /-- the number of calls that led here -/
  depth : Nat
  /-- has the invocation begun so long ago that its time is used up -/
  expired : Bool
  /-- how its time passes from here on -/
  clock : Clock := .still

/-- the context of a call made in this one -/
def Context.nested (ctx : Context) (args : List Value) : Context :=
  { ctx with args := args, depth := ctx.depth + 1 }

/-- is the time of the invocation used up when the clock is read for the `n`-th time, from 0 -/
def Context.outOfTime (ctx : Context) (n : Nat) : Bool := ctx.expired || ctx.clock.late n

/-- a command that was run, and the depth at which that happened -/
structure Invocation where
  command : Command
  depth : Nat
deriving DecidableEq

/-- A global, and the indices that lead to a part of it. -/
structure Place where
  name : String
  path : List Value

/-- a list that got longer in its place -/
structure Growth where
  place : Place
  /-- the global before -/
  whole : Value
  /-- the list afterwards -/
  longer : Value

/-- What evaluation can change. -/
structure Machine where
  globals : Table Value
  /-- what was run, the latest first -/
  calls : List Invocation
  /-- what got longer in its place, the latest first -/
  growths : List Growth
  /-- how often the clock was read -/
  readings : Nat

def Machine.start (globals : Table Value) : Machine := ⟨globals, [], [], 0⟩

/-- the machine after the clock was read once more -/
def Machine.tick (m : Machine) : Machine := { m with readings := m.readings + 1 }

/-- a step that gives an `α` or fails, and leaves a machine either way -/
def EvalM (α : Type) : Type := Machine → Except EvalError α × Machine

namespace EvalM

variable {α β : Type}

/-- the step that gives `a` -/
def give (a : α) : EvalM α := fun m => (.ok a, m)

def fail (e : EvalError) : EvalM α := fun m => (.error e, m)

/-- a step and, unless it fails, one that depends on what it gave -/
def andThen (x : EvalM α) (f : α → EvalM β) : EvalM β := fun m =>
  match x m with
  | (.ok a, m) => f a m
  | (.error e, m) => (.error e, m)

instance : Monad EvalM where
  pure := give
  bind := andThen

/-- the step that gives a result or fails with its error -/
def lift : Except EvalError α → EvalM α
  | .ok a => give a
  | .error e => fail e

/-- a step whose failure counts as giving nothing -/
def attempt (x : EvalM α) : EvalM (Option α) := fun m =>
  match x m with
  | (.ok a, m) => (.ok (some a), m)
  | (.error _, m) => (.ok none, m)

def globals : EvalM (Table Value) := fun m => (.ok m.globals, m)

def setGlobal (name : String) (v : Value) : EvalM Unit := fun m =>
  (.ok (), { m with globals := m.globals.insert name v })

/-- takes down that a command is run -/
def record (command : Command) (depth : Nat) : EvalM Unit := fun m =>
  (.ok (), { m with calls := ⟨command, depth⟩ :: m.calls })

/-- takes down that a list gets longer in its place -/
def recordGrowth (g : Growth) : EvalM Unit := fun m =>
  (.ok (), { m with growths := g :: m.growths })

/-- reads the clock: is the time of the invocation used up -/
def outOfTime (ctx : Context) : EvalM Bool := fun m => (.ok (ctx.outOfTime m.readings), m.tick)

/-- a step that is refused if it comes too late -/
def inTime (ctx : Context) (x : EvalM α) : EvalM α := do
  if ← outOfTime ctx then fail .timeLimit else x

theorem pure_apply (a : α) (m : Machine) : (pure a : EvalM α) m = (.ok a, m) := rfl

theorem fail_apply (e : EvalError) (m : Machine) : (fail e : EvalM α) m = (.error e, m) := rfl

theorem globals_apply (m : Machine) : globals m = (.ok m.globals, m) := rfl

theorem lift_apply (r : Except EvalError α) (m : Machine) : lift r m = (r, m) := by
  cases r <;> rfl

theorem bind_apply (x : EvalM α) (f : α → EvalM β) (m : Machine) :
    (x >>= f) m = match x m with
      | (.ok a, m) => f a m
      | (.error e, m) => (.error e, m) := rfl

theorem bind_eq_of_ok {x : EvalM α} {f : α → EvalM β} {a : α} {m m' : Machine}
    (h : x m = (.ok a, m')) : (x >>= f) m = f a m' := by
  rw [bind_apply, h]

theorem bind_eq_of_error {x : EvalM α} {f : α → EvalM β} {e : EvalError} {m m' : Machine}
    (h : x m = (.error e, m')) : (x >>= f) m = (.error e, m') := by
  rw [bind_apply, h]

theorem inTime_of_late {ctx : Context} {m : Machine} (h : ctx.outOfTime m.readings = true)
    (x : EvalM α) : inTime ctx x m = (.error .timeLimit, m.tick) := by
  have hread : outOfTime ctx m = (.ok true, m.tick) := by
    rw [outOfTime, h]
  rw [inTime, bind_eq_of_ok hread, if_pos rfl, fail_apply]

theorem inTime_of_not_late {ctx : Context} {m : Machine} (h : ctx.outOfTime m.readings = false)
    (x : EvalM α) : inTime ctx x m = x m.tick := by
  have hread : outOfTime ctx m = (.ok false, m.tick) := by
    rw [outOfTime, h]
  rw [inTime, bind_eq_of_ok hread, if_neg Bool.false_ne_true]

theorem map_id (x : EvalM α) : id <$> x = x := by
  funext m
  show andThen x (fun a => give a) m = x m
  unfold andThen give
  rcases x m with ⟨r, m⟩
  cases r <;> rfl

theorem andThen_assoc {γ : Type} (x : EvalM α) (f : α → EvalM β) (g : β → EvalM γ) :
    x >>= f >>= g = x >>= fun a => f a >>= g := by
  funext m
  show andThen (andThen x f) g m = andThen x (fun a => andThen (f a) g) m
  unfold andThen
  rcases x m with ⟨r, m⟩
  cases r <;> rfl

instance : LawfulMonad EvalM :=
  LawfulMonad.mk' EvalM map_id (fun _ _ => rfl) andThen_assoc

end EvalM

end Parlance
