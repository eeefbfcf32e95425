import Toolpath.Job

/-!
Running job files. Every compiled path gives a program beside the job file, and with bed probes a
probing program and a file of nominal heights. Files are reached through a `Host`, so that a run is
the same on a disk and on a table of files.
-/

set_option autoImplicit false

namespace Toolpath

/-- How files are read and written; a failure comes with its reason. -/
structure Host (m : Type → Type) where
  read : String → m (Except String String)
  write : String → String → m (Except String Unit)

def version : String := "0.4.0"

namespace FileName

/-- A directory without separators and dots for itself at its end, reversed. -/
def trimDirectory : List Char → List Char
  | ['/'] => ['/']
  | '/' :: rest => trimDirectory rest
  | '.' :: '/' :: rest => trimDirectory ('/' :: rest)
  | rest => rest

/-- The directory of a file, with a separator at its end, and its name. -/
def split (file : String) : String × String :=
  let reversed := file.toList.reverse
  let name := (reversed.takeWhile (· != '/')).reverse
  match reversed.dropWhile (· != '/') with
  | [] => ("", String.ofList name)
  | separated =>
    match trimDirectory separated with
    | ['/'] => ("/", String.ofList name)
    | directory => (String.ofList (directory.reverse ++ ['/']), String.ofList name)

/-- A name without what follows its last point; a point in front does not count. -/
def stem (name : String) : String :=
  let reversed := name.toList.reverse
  match reversed.dropWhile (· != '.') with
  | [] | ['.'] => name
  | _ :: before => String.ofList before.reverse

/-- The file for a path beside the job file. -/
def output (jobFile : String) (path : PathName) (suffix : String) : String :=
  let (directory, name) := split jobFile
  directory ++ stem name ++ "_" ++ path.fileStem ++ suffix ++ ".nc"

end FileName

structure RunResult (α : Type) where
  /-- The files, in the order in which they were written. -/
  written : List String
  programs : Nat
  statistics : Statistics α

namespace Job

variable {α : Type} [Scalar α]

def banner (date : String) : String := "; pathkit " ++ version ++ ", built " ++ date ++ "\n"

/-- The files of a compiled path with their contents, that of its program first. -/
def outputs (jobFile date : String) (path : CompiledPath α) : List (String × String) :=
  let name := path.program.name
  [(FileName.output jobFile name "", banner date ++ path.program.text)] ++
    (path.probing.map fun p =>
      (FileName.output jobFile name "_probe", banner date ++ p.text)).toList ++
    (path.nominalHeights.map fun text => (FileName.output jobFile name "_heights", text)).toList

variable {m : Type → Type} [Monad m]

def writeAll (host : Host m) : List (String × String) → m (Except String Unit)
  | [] => return .ok ()
  | (file, text) :: rest => do
    match ← host.write file text with
    | .ok () => writeAll host rest
    | .error reason => return .error ("Failed to write " ++ file ++ ": " ++ reason)

def writePath (host : Host m) (jobFile date : String) (result : RunResult α) (report : Report α)
    (path : CompiledPath α) : m (Except String (RunResult α) × Report α) := do
  let files := outputs jobFile date path
  match ← writeAll host (files.take 1) with
  | .error reason => return (.error reason, report)
  | .ok () =>
    let file := FileName.output jobFile path.program.name ""
    let report := report.note ("path " ++ path.program.name.text ++ ": written to " ++ file)
    match ← writeAll host (files.drop 1) with
    | .error reason => return (.error reason, report)
    | .ok () =>
      let result : RunResult α :=
        ⟨result.written ++ files.map Prod.fst, result.programs + 1,
          result.statistics.merge path.program.statistics⟩
      return (.ok result, report)

def writePaths (host : Host m) (jobFile date : String) :
    List (CompiledPath α) → RunResult α → Report α → m (Except String (RunResult α) × Report α)
  | [], result, report => return (.ok result, report)
  | path :: rest, result, report => do
    match ← writePath host jobFile date result report path with
    | (.ok result, report) => writePaths host jobFile date rest result report
    | (.error reason, report) => return (.error reason, report)

/-- Compiles a job file and writes its programs. Problems of the drawing are reported and do not
stop the other paths; an unreadable job and a failed write do. -/
def runFile (host : Host m) (jobFile date : String) (report : Report α) :
    m (Except String (RunResult α) × Report α) := do
  match ← host.read jobFile with
  | .error reason => return (.error ("Failed to read job file " ++ jobFile ++ ": " ++ reason), report)
  | .ok text =>
    match (ofText? text : Option (Job α)) with
    | none =>
      return (.error ("Invalid job file " ++ jobFile ++ ": Failed to parse job"), report)
    | some job =>
      let (paths, report) := job.compile report
      writePaths host jobFile date paths ⟨[], 0, .empty⟩ report

end Job

end Toolpath
