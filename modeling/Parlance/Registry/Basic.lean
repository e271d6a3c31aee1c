import Parlance.Command.Basic
import Parlance.Command.Expansion
import Parlance.Registry.Error
import Parlance.Table

/-!
# The registry of commands

* `Registered`            a command and the mask that guards it;
* `Registry`              commands and aliases by name, and the masks that guard the verbs;
* `Registry.resolve`      the command that a name stands for, through any number of aliases;
* `Registry.define`, `addAlias`, `remove`   the checked changes;
* `Registry.insertCommand`, `insertAlias`   unchecked ones, which may leave aliases that lead
                          nowhere or round in a circle;
* `Registry.setGate`, `setMask`   what guards a verb or a command.

A name that is bound as a command counts as that, also when it is an alias too.  Following aliases
ends because each step meets a target that was not met before.
-/

namespace Parlance

/-- a command and the mask that guards it -/
structure Registered where
  command : Command
  mask : UInt64

/-- commands and aliases by name, and the masks that guard the verbs -/
structure Registry where
  commands : Table Registered
  aliases : Table String
  gates : Table UInt64

namespace Registry

/-- the registry without commands and aliases -/
def fresh : Registry :=
  ⟨.empty, .empty, .ofList (Verb.all.map fun v => (v.name, v.defaultMask))⟩

def targets (r : Registry) : List String := r.aliases.toList.map (·.2)

theorem mem_targets {r : Registry} {name target : String}
    (h : r.aliases.get? name = some target) : target ∈ r.targets :=
  Table.mem_of_get? h

def unmet (r : Registry) (met : List String) : List String := r.targets.filter (!met.contains ·)

theorem unmet_lt {r : Registry} {met : List String} {target : String} (h : target ∈ r.targets)
    (hm : ¬met.contains target) :
    (r.unmet (target :: met)).length < (r.unmet met).length := by
  have e : r.unmet (target :: met) = (r.unmet met).filter (fun t => !(t == target)) := by
    unfold unmet
    rw [List.filter_filter]
    congr 1
    funext t
    simp only [List.contains_cons, Bool.not_or]
  rw [e]
  apply List.length_filter_lt_length_iff_exists.mpr
  exact ⟨target, by simp_all [unmet], by simp⟩

/-- The command that `current` stands for, where aliases have led from `name` to it past the names
in `met`. -/
def chase (r : Registry) (name current : String) (met : List String) :
    Except RegistryError Registered :=
  match r.commands.get? current with
  | some entry => .ok entry
  | none =>
    match h : r.aliases.get? current with
    | none => .error (.notFound name)
    | some target =>
      if hm : met.contains target then .error (.circularAlias current target)
      else
        have := unmet_lt (mem_targets h) hm
        chase r name target (target :: met)
termination_by (r.unmet met).length

/-- the command that a name stands for -/
def resolve (r : Registry) (name : String) : Except RegistryError Registered := r.chase name name []

/-- the command that a name stands for, if it stands for one -/
def find? (r : Registry) (name : String) : Option Registered := (r.resolve name).toOption

/-! ## Changes -/

/-- binds a command to its name; what the name was bound to before comes back -/
def insertCommand (r : Registry) (c : Command) : Option Registered × Registry :=
  (r.commands.get? c.name, { r with commands := r.commands.insert c.name ⟨c, 0⟩ })

/-- makes `name` an alias for `target`, whatever that is -/
def insertAlias (r : Registry) (name target : String) : Registry :=
  { r with aliases := r.aliases.insert name target }

/-- Takes out the command of this name, or else the alias; tells whether there was one. -/
def remove (r : Registry) (name : String) : Bool × Registry :=
  if r.commands.contains name then (true, { r with commands := r.commands.erase name })
  else (r.aliases.contains name, { r with aliases := r.aliases.erase name })

/-- Binds `name` to a command that says the words of `body`.  A new definition needs a name that
stands for nothing, and `redefine` one that stands for something, which it takes the place of. -/
def define (r : Registry) (name body : String) (redefine : Bool) :
    Except RegistryError Registry :=
  let fresh : Command := ⟨name, .words (Expansion.ofText body)⟩
  if Text.dropBlanks body.toList = [] then
    .error (.emptyExpansion (if redefine then .redefine else .define))
  else if Verb.isName name then .error (.alreadyDefined name)
  else match (r.find? name).isSome, redefine with
    | true, false => .error (.alreadyDefined name)
    | false, true => .error (.notFound name)
    | true, true => .ok ((r.remove name).2.insertCommand fresh).2
    | false, false => .ok (r.insertCommand fresh).2

/-- Makes the unused `name` an alias for something that stands for a command. -/
def addAlias (r : Registry) (name target : String) : Except RegistryError Registry :=
  if Verb.isName name || r.commands.contains name || r.aliases.contains name then
    .error (.alreadyDefined name)
  else (r.resolve target).map fun _ => r.insertAlias name target

/-! ## Masks -/

/-- what guards the verb of this name: nothing if there is none -/
def gate (r : Registry) (name : String) : UInt64 := (r.gates.get? name).getD 0

/-- guards the verb of this name -/
def setGate (r : Registry) (name : String) (mask : UInt64) : Registry :=
  { r with gates := r.gates.insert name mask }

/-- guards the command that a name stands for, if it stands for one -/
def setMask? (r : Registry) (name : String) (mask : UInt64) : Option Registry :=
  (r.find? name).map fun entry =>
    { r with commands := r.commands.insert entry.command.name ⟨entry.command, mask⟩ }

end Registry

end Parlance
