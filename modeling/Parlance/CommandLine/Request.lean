import Parlance.CommandLine.Task

/-!
# Requests on the command line

* `Given`              what the options of one place have set;
* `Request`            a job with its settings, or an account of something;
* `readTask`           what the arguments after the name of a task ask for;
* `Request.ofArgs`     what all arguments ask for.

An option may stand before or after the name of the task, once in each place, and the later place
counts.  After two dashes every argument is an operand.  Arguments are read from left to right, and
the first that cannot be granted, or that asks for an account, decides: with one exception, which
is `Given.doubt`.
-/

namespace Parlance.CommandLine

/-! ## Options of one place -/

/-- What the options of one place have set. -/
structure Given where
  settings : Settings := {}
  /-- the options used in this place -/
  used : List Setting := []
  /-- What is wrong with the last option, if its value was an argument of its own.  Such a value is
  taken up with the next option or at the end, so the name of a task after it is read first. -/
  doubt : Option Misuse := none

namespace Given

/-- what is given, if there is no doubt about it -/
def certain (g : Given) : Except Misuse Given :=
  match g.doubt with
  | some cause => .error cause
  | none => .ok g

/-- what is given after one more option -/
def set (g : Given) (setting : Setting) (value : String) : Except Misuse Given :=
  if g.used.contains setting then .error (.repeatedOption setting)
  else
    match g.settings.withValue? setting value with
    | some settings => .ok { g with settings := settings, used := setting :: g.used }
    | none => .error (.unsuitableValue setting value)

/-- the same, where a failure is left as a doubt -/
def setLater (g : Given) (setting : Setting) (value : String) : Given :=
  match g.set setting value with
  | .ok g => g
  | .error cause => { g with doubt := some cause }

end Given

/-! ## Requests -/

/-- what there is an account of -/
inductive Topic where
  | program
  | task (task : Task)
  /-- the word that asks for an account -/
  | help
deriving DecidableEq

namespace Topic

/-- the word that asks for an account -/
def helpWord : String := "help"

/-- what has this name -/
def ofName? (name : String) : Option Topic :=
  match Task.ofName? name with
  | some t => some (task t)
  | none => if name = helpWord then some help else none

end Topic

/-- what the arguments ask for -/
inductive Request where
  | run (settings : Settings) (job : Job)
  | help (topic : Topic)

/-- A request in spite of a doubt: an account is given all the same. -/
def Request.despite (doubt : Option Misuse) : Request → Except Misuse Request
  | .help topic => .ok (.help topic)
  | .run settings job =>
    match doubt with
    | some cause => .error cause
    | none => .ok (.run settings job)

/-! ## Reading -/

def finishTask (task : Task) (settings : Settings) : Option Job → Except Misuse Request
  | some job => .ok (.run settings job)
  | none => task.alone.map (.run settings)

/-- what the arguments after the name of a task ask for -/
def readTask (task : Task) (g : Given) (job : Option Job) : List String → Except Misuse Request
  | [] => finishTask task g.settings job
  | arg :: args =>
    match Shape.of arg with
    | .dashes => do finishTask task g.settings (← args.foldlM task.withOperand job)
    | .help => .ok (.help (.task task))
    | .unknown => .error (.unknownOption arg)
    | .plain => do readTask task g (← task.withOperand job arg) args
    | .option setting (some value) => do readTask task (← g.set setting value) job args
    | .option setting none =>
      match args with
      | [] => .error (.missingValue setting)
      | value :: args =>
        if Shape.of value = .plain then do readTask task (← g.set setting value) job args
        else .error (.missingValue setting)

/-- what the arguments after the word that asks for an account ask for -/
def readHelp : List String → Except Misuse Request
  | [] => .ok (.help .program)
  | [name] =>
    match Topic.ofName? name with
    | some topic => .ok (.help topic)
    | none => .error (.unknownTask name)
  | _ :: text :: _ => .error (.extraOperand text)

/-- what all arguments ask for, after some options -/
def readTop (g : Given) : List String → Except Misuse Request
  | [] => do
    let _ ← g.certain
    .error .missingTask
  | arg :: args =>
    match Shape.of arg with
    | .dashes => .error (.extraOperand arg)
    | .help => do
      let _ ← g.certain
      .ok (.help .program)
    | .unknown => .error (.unknownOption arg)
    | .plain =>
      match Topic.ofName? arg with
      | some (.task task) => do
        (← readTask task { settings := g.settings } none args).despite g.doubt
      | some _ => readHelp args
      | none => .error (.unknownTask arg)
    | .option setting (some value) => do
      let g ← g.certain
      readTop (← g.set setting value) args
    | .option setting none => do
      let g ← g.certain
      match args with
      | [] => .error (.missingValue setting)
      | value :: args =>
        if Shape.of value = .plain then readTop (g.setLater setting value) args
        else .error (.missingValue setting)

/-- what the arguments ask for -/
def Request.ofArgs (args : List String) : Except Misuse Request := readTop {} args

end Parlance.CommandLine
