import Parlance.Command.Permission

/-!
# Settings on the command line

* `Setting`, `Settings`     what can be set with an option, and what is set;
* `Settings.withValue?`     the settings after an option;
* `Shape`                   what an argument looks like: an option, a flag, or plain text.

An option has one value, either in the next argument or after an equals sign.
-/

namespace Parlance.CommandLine

/-- what can be set with an option -/
inductive Setting where
  | level
  | mark
  | user
  | channel
deriving DecidableEq

namespace Setting

/-- the name of the option -/
def name : Setting → String
  | level => "level"
  | mark => "prefix"
  | user => "user"
  | channel => "channel"

def all : List Setting := [level, mark, user, channel]

def ofName? (name : String) : Option Setting := all.find? (·.name == name)

end Setting

/-- what is set -/
structure Settings where
  level : Level := .all
  /-- what a line starts with that addresses the bot -/
  mark : String := "!"
  user : String := "user"
  channel : String := "#console"

def levelOfName? : String → Option Level
  | "all" => some .all
  | "trusted" => some .trusted
  | "moderator" => some .moderator
  | "broadcaster" => some .broadcaster
  | _ => none

/-- the settings after an option, if it can have this value -/
def Settings.withValue? (s : Settings) (setting : Setting) (value : String) : Option Settings :=
  match setting with
  | .level => (levelOfName? value).map fun level => { s with level := level }
  | .mark => some { s with mark := value }
  | .user => some { s with user := value }
  | .channel => some { s with channel := value }

/-! ## Arguments -/

/-- what an argument looks like -/
inductive Shape where
  /-- two dashes alone -/
  | dashes
  | help
  /-- an option, with the value that is attached to it -/
  | option (setting : Setting) (value : Option String)
  /-- an option that there is not -/
  | unknown
  | plain
deriving DecidableEq

/-- the text before and after the first equals sign -/
def splitAtEquals (cs : List Char) : String × Option String :=
  match cs.dropWhile (· != '=') with
  | [] => (String.ofList cs, none)
  | _ :: value => (String.ofList (cs.takeWhile (· != '=')), some (String.ofList value))

/-- the shape of an argument with the given name and attached value after two dashes -/
def Shape.long (name : String) (value : Option String) : Shape :=
  match Setting.ofName? name with
  | some setting => option setting value
  | none => if name = "help" && value.isNone then help else unknown

/-- The shape of an argument.  One dash alone is plain, and what follows the letter of the short
flag is not looked at. -/
def Shape.of (arg : String) : Shape :=
  match arg.toList with
  | ['-', '-'] => dashes
  | '-' :: '-' :: cs =>
    let (name, value) := splitAtEquals cs
    long name value
  | '-' :: 'h' :: _ => help
  | '-' :: _ :: _ => unknown
  | _ => plain

end Parlance.CommandLine
