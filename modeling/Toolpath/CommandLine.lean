import Toolpath.Job.Run

/-!
The command line: job files, one after the other. A file that fails does not stop the next one, but
the exit code tells of it.
-/

set_option autoImplicit false

namespace Toolpath.CommandLine

def usage : String := "usage: pathkit <job.json>..."

variable {α : Type} [Scalar α]

def terminalControls : List Nat := [0x07, 0x08, 0x0c, 0x1b, 0x7f]

/-- How a character is shown in a log: those that a terminal obeys by their number. -/
def shown (c : Char) : List Char :=
  if terminalControls.contains c.toNat then
    ['\\', 'x', Nat.digitChar (c.toNat / 16), Nat.digitChar (c.toNat % 16)]
  else if 0x80 ≤ c.toNat ∧ c.toNat ≤ 0x9f then
    '\\' :: 'u' :: '{' :: Nat.toDigits 16 c.toNat ++ ['}']
  else [c]

def level : LogEntry α → String
  | .note _ => "INFO"
  | .failure _ => "ERROR"
  | .problem d =>
    match d.severity with
    | .warning => "WARN"
    | .error => "ERROR"

def message : LogEntry α → String
  | .note text => text
  | .failure text => text
  | .problem d => d.text

def logLine (entry : LogEntry α) : String :=
  level entry ++ " " ++ String.ofList ((message entry).toList.flatMap shown)

def conclude (file : String) (result : Except String (RunResult α)) (report : Report α) :
    Report α :=
  match result with
  | .error reason => report.failure reason
  | .ok result =>
    let report := report.note
      (file ++ ": " ++ toString result.programs ++ " programs written, about " ++
        toString result.statistics.roundedMinutes ++ " min of machining")
    if report.hasErrors then
      report.failure (file ++ ": " ++ toString report.errorCount ++ " errors")
    else report

def failed (result : Except String (RunResult α)) (report : Report α) : Bool :=
  match result with
  | .error _ => true
  | .ok _ => report.hasErrors

variable {m : Type → Type} [Monad m]

/-- Runs files one after the other, handing the log of each to `say`; tells whether one failed. -/
def runAll (host : Host m) (say : List (LogEntry α) → m Unit) (date : String) :
    List String → m Bool
  | [] => return false
  | file :: rest => do
    let (result, report) ← Job.runFile host file date (.empty : Report α)
    let report := conclude file result report
    say report.log
    let later ← runAll host say date rest
    return failed result report || later

end Toolpath.CommandLine
