import Parlance.Chat.Dispatch
import Parlance.CommandLine.Help
import Parlance.Expr.Printer
import Parlance.Text.Bytes

/-!
# What the program reports

* `Report`            what is printed, what is complained of, and the code at the exit;
* `Job.report`        what comes of a job, given the text that it works on;
* `respond`           what comes of the arguments, given two ways of reading a text.

Reading is the one thing that the program does besides, so `respond` works in any monad in which
there is a way to read a file and the standard input.
-/

namespace Parlance.CommandLine

/-- What is printed, what is complained of, and the code at the exit. -/
structure Report where
  output : String
  complaint : String
  code : UInt8
deriving DecidableEq

namespace Report

def done (output : String) : Report := ⟨output, "", 0⟩

/-- the report of a job that cannot be done -/
def failed (complaint : String) : Report := ⟨"", complaint, 1⟩

/-- the report on arguments that ask for nothing that can be done -/
def misused (complaint : String) : Report := ⟨"", complaint, 2⟩

end Report

/-- the invocation that the settings describe, whose time does not pass -/
def Settings.context (s : Settings) : Context :=
  ⟨s.user, s.channel, programName, [], 0, false, .still⟩

def tokenComplaint (text : String) (t : Token) (cause : LexError) : String :=
  "[line " ++ countText (Text.lineAt text.toList t.offset) ++ "] Error: " ++ cause.message ++
    ": " ++ t.literal

/-- One line for each token, up to the first that is invalid. -/
def reportTokens (text : String) : List Token → Report
  | [] => .done ""
  | t :: ts =>
    match t.kind with
    | .invalid cause => ⟨"", tokenComplaint text t cause, 65⟩
    | _ =>
      let rest := reportTokens text ts
      { rest with output := t.display ++ "\n" ++ rest.output }

def reportTree (text : String) : Report :=
  match Expr.ofText text with
  | .ok e => .done (e.display ++ "\n")
  | .error e => .failed e.message

def reportValue (settings : Settings) (text : String) : Report :=
  match (Session.fresh.evaluate settings.context text).result with
  | .ok v => .done (v.message ++ "\n")
  | .error e => .failed e.message

/-- the answers to chat lines, one after the other in one session -/
def answers (settings : Settings) : Session → List String → List String
  | _, [] => []
  | s, line :: lines =>
    let o := Chat.handle s settings.context settings.level settings.mark line
    o.result.toList ++ answers settings o.session lines

def reportAnswers (settings : Settings) (text : String) : Report :=
  .done ("".intercalate ((answers settings .fresh (text.splitOn "\n")).map (· ++ "\n")))

/-- where a text is read from -/
inductive Source where
  | file (path : String)
  | standard
  /-- the text is there already -/
  | given (text : String)

/-- where a job finds its text -/
def Job.source : Job → Source
  | tokenize path => .file path
  | parse path => .file path
  | eval text => .given text
  | console (some path) => .file path
  | console none => .standard

/-- what comes of a job, given its text -/
def Job.report (settings : Settings) (job : Job) (text : String) : Report :=
  match job with
  | tokenize _ => reportTokens text (Token.ofText text)
  | parse _ => reportTree text
  | eval _ => reportValue settings text
  | console _ => reportAnswers settings text

/-- what comes of the arguments, given a way to read a file and one to read the standard input -/
def respond {m : Type → Type} [Monad m] (file : String → m (Option String)) (standard : m String)
    (args : List String) : m Report :=
  match Request.ofArgs args with
  | .error misuse => return .misused misuse.message
  | .ok (.help topic) => return .done (helpText topic)
  | .ok (.run settings job) =>
    match job.source with
    | .given text => return job.report settings text
    | .standard => do return job.report settings (← standard)
    | .file path => do
      match (← file path) with
      | some text => return job.report settings text
      | none => return .failed ("reading '" ++ path ++ "' failed")

end Parlance.CommandLine
