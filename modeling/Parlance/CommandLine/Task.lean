import Parlance.CommandLine.Settings

/-!
# Tasks on the command line

* `Task`, `Job`        the names of the four tasks, and a task with what it is to work on;
* `Misuse`             why arguments ask for nothing that can be done;
* `Task.withOperand`   the job of a task that is given one more operand;
* `Task.alone`         the job of a task without operand.
-/

namespace Parlance.CommandLine

/-- the name of what the program can do -/
inductive Task where
  | tokenize
  | parse
  | eval
  | console
deriving DecidableEq

namespace Task

/-- how the task is called -/
def name : Task → String
  | tokenize => "tokenize"
  | parse => "parse"
  | eval => "eval"
  | console => "console"

def all : List Task := [tokenize, parse, eval, console]

def ofName? (name : String) : Option Task := all.find? (·.name == name)

end Task

/-- a task and what it is to work on -/
inductive Job where
  | tokenize (path : String)
  | parse (path : String)
  | eval (text : String)
  /-- without a path, on the standard input -/
  | console (path : Option String)

/-- why arguments ask for nothing that can be done -/
inductive Misuse where
  | missingValue (setting : Setting)
  | unknownOption (text : String)
  | repeatedOption (setting : Setting)
  | unsuitableValue (setting : Setting) (value : String)
  | missingTask
  | unknownTask (name : String)
  | missingOperand (task : Task)
  | emptyPath (task : Task)
  | extraOperand (text : String)
deriving DecidableEq

def Misuse.message : Misuse → String
  | missingValue setting => "--" ++ setting.name ++ " is not followed by its value"
  | unknownOption text => "there is no option '" ++ text ++ "'"
  | repeatedOption setting => "--" ++ setting.name ++ " is given more than once"
  | unsuitableValue setting value => "--" ++ setting.name ++ " cannot be '" ++ value ++ "'"
  | missingTask => "no task is given"
  | unknownTask name => "there is no task '" ++ name ++ "'"
  | missingOperand task => task.name ++ " needs something to work on"
  | emptyPath task => task.name ++ " cannot work on a path without characters"
  | extraOperand text => "there is no use for '" ++ text ++ "'"

namespace Task

/-- a path for a task, which is not empty -/
def pathOf (task : Task) (text : String) : Except Misuse String :=
  if text.isEmpty then .error (.emptyPath task) else .ok text

def jobOn (task : Task) (operand : String) : Except Misuse Job :=
  match task with
  | tokenize => (task.pathOf operand).map .tokenize
  | parse => (task.pathOf operand).map .parse
  | eval => .ok (.eval operand)
  | console => (task.pathOf operand).map fun path => .console (some path)

/-- One more operand for a task that may have a job already.  No task has two. -/
def withOperand (task : Task) (job : Option Job) (operand : String) : Except Misuse (Option Job) :=
  match job with
  | some _ => .error (.extraOperand operand)
  | none => (task.jobOn operand).map some

/-- a task without operand -/
def alone : Task → Except Misuse Job
  | console => .ok (.console none)
  | task => .error (.missingOperand task)

end Task

end Parlance.CommandLine
