import Toolpath.Params.Overlay
import Toolpath.Program.Writer

/-!
The parameters of an element: the overlays of all levels above it and its own. Each parameter has
the value of the innermost overlay that sets it.
-/

set_option autoImplicit false

namespace Toolpath

structure Defaults (α : Type) where
  feedRate : α
  /-- The feed rate, where it is not given. -/
  plungeRate : Option α
  sweepRate : α
  sweepHeight : α
  bitDiameter : α

/-- Overlays, the innermost first. -/
structure Settings (α : Type) where
  overlays : List (Overlay α)

/-- What keeps the moves of a path from being written. -/
inductive EmitError (α : Type)
  | unset (field : Field) (context : Context α)
  | missingPath (name : PathName)

variable {α : Type}

namespace Defaults

def standard [Scalar α] : Defaults α := ⟨600.0, none, 3000.0, 10.0, 3.0⟩

def value (d : Defaults α) : Field → Option α
  | .feedRate => some d.feedRate
  | .plungeRate => d.plungeRate
  | .sweepRate => some d.sweepRate
  | .sweepHeight => some d.sweepHeight
  | .bitDiameter => some d.bitDiameter
  | _ => none

def overlay (d : Defaults α) : Overlay α := ⟨.path, .nowhere, d.value⟩

def problems [Scalar α] (d : Defaults α) : List (Diagnostic α) :=
  d.overlay.fields.filterMap fun (field, value) =>
    (field.rangeProblem value).map fun problem => .error .nowhere "default {0}" [problem]

end Defaults

def EmitError.message [Scalar α] : EmitError α → String
  | unset field context => context.text ++ ": " ++ field.name ++ " is not set"
  | missingPath name => "Sub-path " ++ name.text ++ " is not available"

namespace Settings

def ofDefaults (d : Defaults α) : Settings α := ⟨[d.overlay]⟩

def push (s : Settings α) (o : Overlay α) : Settings α := ⟨o :: s.overlays⟩

/-- The settings one level further in, if that level sets anything. -/
def push? (s : Settings α) : Option (Overlay α) → Settings α
  | some o => s.push o
  | none => s

def level (s : Settings α) : Level :=
  match s.overlays with
  | o :: _ => o.level
  | [] => .path

def context (s : Settings α) : Context α :=
  ((s.overlays.map Overlay.context).find? fun c => !c.isEmpty).getD .nowhere

def get? (s : Settings α) (f : Field) : Option α := s.overlays.findSome? fun o => o.get? f

def require (s : Settings α) (f : Field) : Except (EmitError α) α :=
  match s.get? f with
  | some value => .ok value
  | none => .error (.unset f s.context)

/-- The feed of plunges, which is the feed rate if it has no value of its own. -/
def plungeRate (s : Settings α) : Except (EmitError α) α :=
  match s.get? .plungeRate with
  | some rate => .ok rate
  | none => s.require .feedRate

def feeds (s : Settings α) : Except (EmitError α) (CutFeeds α) := do
  let feed ← s.require .feedRate
  let plunge ← s.plungeRate
  return ⟨feed, plunge⟩

def effective (s : Settings α) : List (Field × α) :=
  Field.all.filterMap fun f => (s.get? f).map fun value => (f, value)

/-- The place to report a broken rule at: that of the innermost overlay that sets one of the
parameters of the rule. -/
def blame (s : Settings α) (fields : List Field) : Context α :=
  match s.overlays.find? fun o => fields.any fun f => (o.get? f).isSome with
  | some o => if o.context.isEmpty then s.context else o.context
  | none => s.context

variable [Scalar α]

def bottomProblem (s : Settings α) : Option (Diagnostic α) := do
  let top ← s.get? .top
  let bottom ← s.get? .bottom
  if top < bottom then
    some (.error (s.blame [.top, .bottom]) "Bottom {0} is above Top {1}"
      [Scalar.plain bottom, Scalar.plain top])
  else none

def barProblem (s : Settings α) : Option (Diagnostic α) := do
  let top ← s.get? .top
  let bottom ← s.get? .bottom
  let height ← s.get? .barHeight
  if top - bottom < height then
    some (.error (s.blame [.barHeight, .top, .bottom])
      "BarHeight {0} exceeds material thickness {1}"
      [Scalar.plain height, Scalar.plain (top - bottom)])
  else none

def sweepProblem (s : Settings α) : Option (Diagnostic α) := do
  let top ← s.get? .top
  let sweep ← s.get? .sweepHeight
  if sweep < top then
    some (.error (s.blame [.sweepHeight, .top]) "SweepHeight {0} is below Top {1}"
      [Scalar.plain sweep, Scalar.plain top])
  else none

def problems (s : Settings α) : List (Diagnostic α) :=
  s.bottomProblem.toList ++ s.barProblem.toList ++ s.sweepProblem.toList

end Settings

end Toolpath
