import Toolpath.Geometry.Point
import Toolpath.PathName

/-!
Problems found in a drawing. They do not stop the work but are collected, each text once, and passed
on in the order in which they were found, between notes on what was done.
-/

set_option autoImplicit false

namespace Toolpath

inductive Severity
  | warning
  | error
  deriving DecidableEq, Repr

/-- Where in the drawing a problem is. -/
structure Context (α : Type) where
  path : Option PathName
  element : Option String
  position : Option (Point α)

/-- A problem: a message with places `{0}`, `{1}` and so on for its parameters. -/
structure Diagnostic (α : Type) where
  severity : Severity
  context : Context α
  message : String
  parameters : List String

def Severity.text : Severity → String
  | warning => "warning"
  | error => "error"

namespace Context

variable {α : Type}

def nowhere : Context α := ⟨none, none, none⟩

def ofPath (name : PathName) : Context α := ⟨some name, none, none⟩

def ofElement (name : PathName) (element : String) (position : Point α) : Context α :=
  ⟨some name, some element, some position⟩

def isEmpty (c : Context α) : Bool := c.path.isNone && c.element.isNone && c.position.isNone

def text [Scalar α] (c : Context α) : String :=
  let path := match c.path with
    | some name => ["path " ++ name.text]
    | none => []
  let place := match c.element, c.position with
    | some element, some position => [element ++ " at " ++ position.text]
    | some element, none => [element]
    | none, some position => ["at " ++ position.text]
    | none, none => []
  ", ".intercalate (path ++ place)

end Context

/-- The text with every occurrence of `pattern`, which is not empty, replaced, from left to right.
`skip` characters in front belong to an occurrence that is replaced already. -/
def replaceFrom (pattern replacement : List Char) : Nat → List Char → List Char
  | _, [] => []
  | skip + 1, _ :: rest => replaceFrom pattern replacement skip rest
  | 0, c :: rest =>
    if pattern.isPrefixOf (c :: rest) then
      replacement ++ replaceFrom pattern replacement (pattern.length - 1) rest
    else c :: replaceFrom pattern replacement 0 rest

namespace Diagnostic

variable {α : Type}

/-- The place in a message for the parameter with an index. -/
def placeholder (index : Nat) : List Char := '{' :: Nat.toDigits 10 index ++ ['}']

def fill (message : List Char) (parameters : List String) : List Char :=
  parameters.zipIdx.foldl
    (fun text (parameter, i) => replaceFrom (placeholder i) parameter.toList 0 text) message

/-- The message with its parameters, after the place where the problem is. -/
def text [Scalar α] (d : Diagnostic α) : String :=
  let message := String.ofList (fill d.message.toList d.parameters)
  if d.context.isEmpty then message else d.context.text ++ ": " ++ message

def display [Scalar α] (d : Diagnostic α) : String := d.severity.text ++ ": " ++ d.text

def error (context : Context α) (message : String) (parameters : List String) : Diagnostic α :=
  ⟨.error, context, message, parameters⟩

def warning (context : Context α) (message : String) (parameters : List String) : Diagnostic α :=
  ⟨.warning, context, message, parameters⟩

end Diagnostic

inductive LogEntry (α : Type)
  /-- Something that was done. -/
  | note (text : String)
  /-- Something that went wrong. -/
  | problem (d : Diagnostic α)
  /-- Something that ended the work on a file. -/
  | failure (text : String)

/-- The problems found so far, each text once, and all that was passed on. Their texts and the
number of errors among them are kept beside them. -/
structure Report (α : Type) [Scalar α] where
  /-- The texts that are known. -/
  seen : List String
  reported : List (Diagnostic α)
  errorCount : Nat
  log : List (LogEntry α)
  mem_seen : ∀ text, text ∈ seen ↔ text ∈ reported.map Diagnostic.text
  errorCount_eq : errorCount = reported.countP fun d => d.severity == .error

namespace Report

variable {α : Type} [Scalar α]

def empty : Report α := ⟨[], [], 0, [], by simp, rfl⟩

def note (r : Report α) (text : String) : Report α := { r with log := r.log ++ [.note text] }

def failure (r : Report α) (text : String) : Report α :=
  { r with log := r.log ++ [.failure text] }

def hasErrors (r : Report α) : Bool := 0 < r.errorCount

def texts (r : Report α) : List String := r.reported.map Diagnostic.text

/-- Keeps a problem and passes it on, unless its text is known. -/
def add (r : Report α) (d : Diagnostic α) : Report α :=
  if r.seen.contains d.text then r
  else
    { seen := d.text :: r.seen
      reported := r.reported ++ [d]
      errorCount := if d.severity = .error then r.errorCount + 1 else r.errorCount
      log := r.log ++ [.problem d]
      mem_seen := fun text => by simp [r.mem_seen text, or_comm]
      errorCount_eq := by cases h : d.severity <;> simp [r.errorCount_eq, h] }

def addAll (r : Report α) (ds : List (Diagnostic α)) : Report α := ds.foldl add r

end Report

end Toolpath
