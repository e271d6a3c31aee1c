import Parlance.Chat.Verb

/-!
# Why a registration is refused

`RegistryError` names the cause, `RegistryError.message` says it.
-/

namespace Parlance

/-- why a registration or a look-up in the registry is refused -/
inductive RegistryError where
  | alreadyDefined (name : String)
  | notFound (name : String)
  | reservedGlobal (name : String)
  | globalRedefinition (name : String)
  | circularAlias (name target : String)
  | emptyExpansion (verb : Verb)
deriving DecidableEq

def RegistryError.message : RegistryError → String
  | alreadyDefined name => "'" ++ name ++ "' is already defined"
  | notFound name => "'" ++ name ++ "' does not exist"
  | reservedGlobal name => "'" ++ name ++ "' is a builtin global"
  | globalRedefinition name => "redefinition of global '" ++ name ++ "'"
  | circularAlias name target => "circular aliases: " ++ name ++ " -> " ++ target
  | emptyExpansion verb => "'" ++ verb.name ++ "' expansion cannot be empty"

end Parlance
