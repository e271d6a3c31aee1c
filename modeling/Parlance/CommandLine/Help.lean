import Parlance.CommandLine.Request

/-!
# The account that the program gives of itself

`helpText topic` is the text on a task, on the program, or on the word that asks for such a text.
Each part of it is a heading and a table, whose second column starts two places after the longest
entry of the first.
-/

namespace Parlance.CommandLine

/-- the name under which the program is called, and the name of the bot on the command line -/
def programName : String := "cmdlang"

/-- a text and the spaces that bring it to the given width -/
def padded (width : Nat) (text : String) : String := text ++ "".pushn ' ' (width - text.length)

def tableLines (rows : List (String × String)) : List String :=
  let width := (rows.map (·.1.length)).foldl max 0
  rows.map fun row => "  " ++ padded (width + 2) row.1 ++ row.2

def Task.account : Task → String
  | eval => "Evaluates a single expression"
  | console => "Treats each line of the file (or stdin) as a chat message"
  | _ => ""

def Task.operandText : Task → String
  | tokenize | parse => "<FILENAME>"
  | eval => "<EXPR>"
  | console => "[FILE]"

def optionRows : List (String × String) :=
  [("    --level <LEVEL>", "Permission level of the simulated caller [default: all] " ++
      "[possible values: all, trusted, moderator, broadcaster]"),
   ("    --prefix <PREFIX>", "[default: !]"),
   ("    --user <USER>", "[default: user]"),
   ("    --channel <CHANNEL>", "[default: #console]"),
   ("-h, --help", "Print help")]

def helpAccount : String := "Print this message or the help of the given subcommand(s)"

def taskRows : List (String × String) :=
  (Task.all.map fun task => (task.name, task.account)) ++ [(Topic.helpWord, helpAccount)]

def helpLines : Topic → List String
  | .program =>
    ["Usage: " ++ programName ++ " [OPTIONS] <COMMAND>", ""] ++
    ["Commands:"] ++ tableLines taskRows ++ [""] ++
    ["Options:"] ++ tableLines optionRows
  | .task task =>
    (if task.account.isEmpty then [] else [task.account, ""]) ++
    ["Usage: " ++ programName ++ " " ++ task.name ++ " [OPTIONS] " ++ task.operandText, ""] ++
    ["Arguments:"] ++ tableLines [(task.operandText, "")] ++ [""] ++
    ["Options:"] ++ tableLines optionRows
  | .help =>
    [helpAccount, ""] ++
    ["Usage: " ++ programName ++ " " ++ Topic.helpWord ++ " [COMMAND]...", ""] ++
    ["Arguments:"] ++ tableLines [("[COMMAND]...", "Print help for the subcommand(s)")]

def helpText (topic : Topic) : String := "".intercalate ((helpLines topic).map (· ++ "\n"))

end Parlance.CommandLine
