import Parlance.CommandLine.Report

/-!
# The program

Reads what the arguments ask for, prints the report, and exits with its code.
-/

namespace Parlance.CommandLine

/-- the contents of a file, if it can be read -/
def readFile? (path : String) : IO (Option String) := do
  try
    return some (← IO.FS.readFile path)
  catch _ =>
    return none

/-- all of the standard input -/
def readStandard : IO String := do
  (← IO.getStdin).readToEnd

/-- does what the arguments ask for; the result is the code at the exit -/
def perform (args : List String) : IO UInt32 := do
  let report ← respond readFile? readStandard args
  IO.print report.output
  unless report.complaint.isEmpty do
    IO.eprintln report.complaint
  return report.code.toUInt32

end Parlance.CommandLine

/-- does what the arguments ask for -/
def main (args : List String) : IO UInt32 := Parlance.CommandLine.perform args
