import Parlance.Command.Permission

/-!
# The commands that manage commands

* `Verb`               the eight words with which a chat line defines, shows, guards and evaluates;
* `Verb.ofName?`       the verb of a name: no other command and no alias can have that name;
* `Verb.defaultMask`   what guards a verb until that is changed.
-/

namespace Parlance

/-- a command that manages commands -/
inductive Verb where
  | define
  | redefine
  | undefine
  | makeAlias
  | show
  | chmod
  | global
  | eval
deriving DecidableEq

namespace Verb

def name : Verb → String
  | define => "def"
  | redefine => "redef"
  | undefine => "undef"
  | makeAlias => "alias"
  | .show => "show"
  | chmod => "chmod"
  | global => "global"
  | eval => "eval"

/-- all verbs, in the order of their names -/
def all : List Verb := [makeAlias, chmod, define, eval, global, redefine, .show, undefine]

def ofName? (name : String) : Option Verb := all.find? (·.name == name)

def isName (name : String) : Bool := (ofName? name).isSome

def defaultLevel : Verb → Level
  | eval | .show => .all
  | chmod => .moderator
  | _ => .trusted

/-- what guards a verb until that is changed -/
def defaultMask (v : Verb) : UInt64 := v.defaultLevel.mask

theorem ofName?_name (v : Verb) : ofName? v.name = some v := by cases v <;> decide

theorem name_of_ofName? {name : String} {v : Verb} (h : ofName? name = some v) : v.name = name := by
  simpa using List.find?_some h

end Verb

end Parlance
