import Parlance.Ty.Basic

/-!
# Commands

* `Primitive`     the functions that the language comes with, one for each kind of argument;
* `Signature`     the types of a function's parameters and of its result;
* `Body`          what running a command does: say words, apply a primitive function, or apply the
                  one of several that suits the arguments best;
* `Command`       a name and a body.

A command whose body is words takes a list of strings and answers one.
-/

namespace Parlance

/-- a function that the language comes with -/
inductive Primitive where
  | intOfInt
  | intOfStr
  | intOfDbl
  | intOfBool
  | intOfChar
  | strOfStr
  | strOfScalar
  | strOfContainer
  | dblOfDbl
  | dblOfInt
  | dblOfStr
  | len
deriving DecidableEq

/-- the types of a function's parameters and of its result -/
structure Signature where
  params : List Ty
  ret : Ty
deriving DecidableEq

/-- the type of a function with this signature -/
def Signature.ty (s : Signature) : Ty := .fn s.params s.ret

/-- one function among several of the same name -/
structure Candidate where
  signature : Signature
  action : Primitive
deriving DecidableEq

/-- what running a command does -/
inductive Body where
  | words (words : List String)
  | primitive (signature : Signature) (action : Primitive)
  | overloads (candidates : List Candidate)
deriving DecidableEq

namespace Body

/-- the signature of every command that says words -/
def wordsSignature : Signature := ⟨[.list .string], .list .string⟩

/-- The signature of a command: of several functions that of the first, and without any that of a
function of nothing to nothing. -/
def signature : Body → Signature
  | words _ => wordsSignature
  | primitive signature _ => signature
  | overloads [] => ⟨[], .void⟩
  | overloads (c :: _) => c.signature

end Body

/-- a name and what running it does -/
structure Command where
  name : String
  body : Body
deriving DecidableEq

namespace Command

def signature (c : Command) : Signature := c.body.signature

def words? (c : Command) : Option (List String) :=
  match c.body with
  | .words words => some words
  | _ => none

end Command

end Parlance
