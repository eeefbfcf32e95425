import Toolpath.Binary64
import Toolpath.CommandLine

/-!
The program: compiles the job files given as arguments.
-/

set_option autoImplicit false

namespace Toolpath

def buildDate : String := "2025-01-01"

/-- The reason of a failure, with the number that the system gives it. -/
def reasonText : IO.Error → String
  | .noFileOrDirectory _ code details => details ++ " (os error " ++ toString code ++ ")"
  | .permissionDenied _ code details => details ++ " (os error " ++ toString code ++ ")"
  | .inappropriateType _ code details => details ++ " (os error " ++ toString code ++ ")"
  | .invalidArgument _ code details => details ++ " (os error " ++ toString code ++ ")"
  | .resourceExhausted _ code details => details ++ " (os error " ++ toString code ++ ")"
  | .alreadyExists _ code details => details ++ " (os error " ++ toString code ++ ")"
  | e => toString e

def disk : Host IO where
  read file := do
    try
      match String.fromUTF8? (← IO.FS.readBinFile file) with
      | some text => return .ok text
      | none => return .error "stream did not contain valid UTF-8"
    catch e => return .error (reasonText e)
  write file text := do
    try
      IO.FS.writeFile file text
      return .ok ()
    catch e => return .error (reasonText e)

def printLog (entries : List (LogEntry Float)) : IO Unit :=
  entries.forM fun entry => IO.eprintln (CommandLine.logLine entry)

end Toolpath

/-- Runs the job files; the exit code is 2 without any and 1 if one fails. -/
def main (args : List String) : IO UInt32 := do
  if args.isEmpty then
    IO.eprintln Toolpath.CommandLine.usage
    return 2
  let failed ← Toolpath.CommandLine.runAll Toolpath.disk Toolpath.printLog Toolpath.buildDate args
  return if failed then 1 else 0
