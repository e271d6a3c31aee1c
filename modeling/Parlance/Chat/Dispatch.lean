import Parlance.Chat.Verb
import Parlance.Number.Numeral
import Parlance.Session

/-!
# Chat lines

* `Chat.body? mark line`   what a line says after the mark that addresses the bot, if it has it;
* `Chat.obey`              what a verb does with its arguments, once it is permitted;
* `Chat.handle`            the answer to a line, if there is one, and the session after it.

The first word after the mark is a verb or the name of a command.  Both are guarded: a caller whose
level is not permitted gets a refusal and changes nothing.  A command gets the other words as
strings.  A line starts a new invocation, whose time is not used up.
-/

namespace Parlance.Chat

/-- the answer to a caller who is not permitted -/
def refusal : String := "insufficient permissions"

/-- the text of some characters between single quotation marks -/
def inQuotes (text : String) : String := "'" ++ text ++ "'"

def wordsOf (text : List Char) : List String := (Text.words text).map String.ofList

/-- a text without every `0x` that it starts with -/
def dropHexMarks : List Char → List Char
  | '0' :: 'x' :: cs => dropHexMarks cs
  | cs => cs

/-- the hexadecimal text of a mask -/
def maskText (mask : UInt64) : String := String.ofList (Nat.toDigits 16 mask.toNat)

/-- an answer and the session after it, where nothing has been run -/
def answer (text : String) (s : Session) : Outcome String := .quiet text s

/-! ## Verbs -/

/-- `def name words…` and `redef name words…` -/
def obeyDefine (s : Session) (args : List Char) (redefine : Bool) : Outcome String :=
  let verb : Verb := if redefine then .redefine else .define
  let (name, body) := Text.splitWord args
  if name = [] then answer ("not enough arguments to " ++ inQuotes verb.name) s
  else
    let name := String.ofList name
    match s.registry.define name (String.ofList body) redefine with
    | .ok r => answer (verb.name ++ "ined " ++ inQuotes name) { s with registry := r }
    | .error e => answer e.message s

/-- `undef name` -/
def obeyUndefine (s : Session) (args : List Char) : Outcome String :=
  match wordsOf args with
  | [name] =>
    match s.registry.remove name with
    | (true, r) => answer ("removed " ++ inQuotes name) { s with registry := r }
    | (false, _) => answer (inQuotes name ++ " does not exist") s
  | _ => answer "'undef' takes exactly 1 argument" s

/-- `alias name target` -/
def obeyAlias (s : Session) (args : List Char) : Outcome String :=
  match wordsOf args with
  | [name, target] =>
    match s.registry.addAlias name target with
    | .ok r =>
      answer (inQuotes name ++ " is now an alias for " ++ inQuotes target) { s with registry := r }
    | .error e => answer e.message s
  | _ => answer "'alias' takes exactly 2 arguments" s

/-- `show name` -/
def obeyShow (s : Session) (args : List Char) : Outcome String :=
  match wordsOf args with
  | [name] =>
    if Verb.isName name then answer (inQuotes name ++ " is a builtin command") s
    else
      match s.registry.find? name with
      | none => answer (inQuotes name ++ " does not exist") s
      | some entry =>
        match entry.command.words? with
        | some words => answer (inQuotes name ++ " is defined as: " ++ " ".intercalate words) s
        | none => answer (inQuotes name ++ " cannot be shown") s
  | _ => answer "'show' takes exactly 1 argument" s

/-- `chmod name mask`, where the mask is hexadecimal -/
def obeyChmod (s : Session) (args : List Char) : Outcome String :=
  match wordsOf args with
  | [name, digits] =>
    match Numeral.word64? .hexadecimal (dropHexMarks digits.toList) with
    | none => answer "invalid permission string" s
    | some mask =>
      let changed :=
        if Verb.isName name then some (s.registry.setGate name mask)
        else s.registry.setMask? name mask
      match changed with
      | some r =>
        answer ("permissions for " ++ inQuotes name ++ " changed to " ++ maskText mask)
          { s with registry := r }
      | none => answer (inQuotes name ++ " does not exist") s
  | _ => answer "not enough arguments to chmod" s

/-- `global name type` -/
def obeyGlobal (s : Session) (args : List Char) : Outcome String :=
  let (name, type) := Text.splitWord args
  if name = [] || type = [] then answer "not enough arguments to global" s
  else
    let invalid := answer ("invalid type " ++ inQuotes (String.ofList type)) s
    match Ty.ofChars? type with
    | none => invalid
    | some t =>
      if (Value.zero? t).isNone then invalid
      else
        let name := String.ofList name
        match s.declareGlobal name t with
        | .ok s =>
          answer ("added global " ++ inQuotes name ++ " with type " ++ inQuotes t.display) s
        | .error e => answer e.message s

/-- `eval expression` -/
def obeyEval (s : Session) (ctx : Context) (args : List Char) : Outcome String :=
  let o := s.evaluate ctx (String.ofList args)
  match o.result with
  | .ok v => { o with result := v.message }
  | .error e => { o with result := "error: " ++ e.message }

/-- what a verb does with its arguments -/
def obey (s : Session) (ctx : Context) (verb : Verb) (args : List Char) : Outcome String :=
  match verb with
  | .define => obeyDefine s args false
  | .redefine => obeyDefine s args true
  | .undefine => obeyUndefine s args
  | .makeAlias => obeyAlias s args
  | .show => obeyShow s args
  | .chmod => obeyChmod s args
  | .global => obeyGlobal s args
  | .eval => obeyEval s ctx args

/-! ## Lines -/

/-- the text after `mark`, if the text starts with it -/
def afterMark? : List Char → List Char → Option (List Char)
  | [], cs => some cs
  | m :: ms, c :: cs => if m = c then afterMark? ms cs else none
  | _ :: _, [] => none

/-- what a line says after the mark that addresses the bot -/
def body? (mark line : String) : Option (List Char) :=
  afterMark? mark.toList (Text.trim line.toList)

/-- an answer or none, where nothing has changed and nothing has been run -/
def unchanged (s : Session) (reply : Option String) : Outcome (Option String) := .quiet reply s

/-- the answer of the command that `name` stands for -/
def handleCommand (s : Session) (ctx : Context) (level : Level) (name : String)
    (args : List Char) : Outcome (Option String) :=
  match s.registry.find? name with
  | none => unchanged s none
  | some entry =>
    if level.permits entry.mask then
      let o := s.run { ctx with args := (wordsOf args).map .ofString } entry.command
      { o with result := o.result.map Value.message }
    else unchanged s (some refusal)

/-- The answer to a chat line of a caller with the given level.  The time of the invocation starts
anew. -/
def handle (s : Session) (ctx : Context) (level : Level) (mark line : String) :
    Outcome (Option String) :=
  match body? mark line with
  | none => unchanged s none
  | some body =>
    let ctx := { ctx with expired := false }
    let (word, args) := Text.splitWord body
    if word = [] then unchanged s none
    else
      let name := String.ofList word
      match Verb.ofName? name with
      | some verb =>
        if level.permits (s.registry.gate name) then
          let o := obey s ctx verb args
          { o with result := some o.result }
        else unchanged s (some refusal)
      | none => handleCommand s ctx level name args

end Parlance.Chat
