import Toolpath.Element
import Toolpath.Params.Settings

/-!
Path layers as they are drawn, and the library of all layers of a job, in the order of their names.
-/

set_option autoImplicit false

namespace Toolpath

inductive AnchorKind
  | start
  | stop
  deriving DecidableEq, Repr

structure Anchor (α : Type) where
  kind : AnchorKind
  position : Point α

structure Layer (α : Type) where
  name : PathName
  params : ParamTexts
  /-- Parameters of all elements of one level. -/
  levelParams : Level → Option ParamTexts
  anchors : List (Anchor α)
  elements : List (Element α)

/-- The layers of a job, each name once, and what holds for all of them. -/
structure Library (α : Type) where
  layers : List (Layer α)
  defaults : Defaults α

def AnchorKind.text : AnchorKind → String
  | start => "start"
  | stop => "end"

namespace Layer

variable {α : Type}

def empty (name : PathName) : Layer α := ⟨name, ∅, fun _ => none, [], []⟩

def setParam (l : Layer α) (key : Char) (value : String) : Layer α :=
  { l with params := l.params.insert key value }

def setLevel (l : Layer α) (level : Level) (texts : ParamTexts) : Layer α :=
  { l with levelParams := fun other => if other = level then some texts else l.levelParams other }

def setLevelParam (l : Layer α) (level : Level) (key : Char) (value : String) : Layer α :=
  l.setLevel level (((l.levelParams level).getD ∅).insert key value)

def addAnchor (l : Layer α) (kind : AnchorKind) (position : Point α) : Layer α :=
  { l with anchors := l.anchors ++ [⟨kind, position⟩] }

def addElement (l : Layer α) (e : Element α) : Layer α := { l with elements := l.elements ++ [e] }

/-- The names of the paths that are placed on the layer, in drawing order. -/
def references (l : Layer α) : List PathName :=
  l.elements.filterMap fun e =>
    match e.kind with
    | .subPath _ _ target => some target
    | _ => none

def positions (l : Layer α) (kind : AnchorKind) : List (Point α) :=
  (l.anchors.filter fun a => a.kind = kind).map Anchor.position

end Layer

namespace Library

variable {α : Type}

/-- The layers with one more at its place in the order of names; a name that is there already keeps
its layer. -/
def insertLayer (l : Layer α) : List (Layer α) → List (Layer α)
  | [] => [l]
  | other :: rest =>
    match l.name.compare other.name with
    | .lt => l :: other :: rest
    | .eq => other :: rest
    | .gt => other :: insertLayer l rest

def get? (lib : Library α) (name : PathName) : Option (Layer α) :=
  lib.layers.find? fun l => l.name == name

def add (lib : Library α) (l : Layer α) : Library α × List (Diagnostic α) :=
  match lib.get? l.name with
  | some _ => (lib, [.error (.ofPath l.name) "path defined more than once" []])
  | none => ({ lib with layers := insertLayer l lib.layers }, [])

def addAll (lib : Library α) : List (Layer α) → Library α × List (Diagnostic α)
  | [] => (lib, [])
  | l :: rest =>
    let (lib, problems) := lib.add l
    let (lib, later) := lib.addAll rest
    (lib, problems ++ later)

def ofLayers [Scalar α] (defaults : Defaults α) (layers : List (Layer α)) :
    Library α × List (Diagnostic α) :=
  let (lib, problems) := addAll ⟨[], defaults⟩ layers
  (lib, defaults.problems ++ problems)

def names (lib : Library α) : List PathName := lib.layers.map Layer.name

/-- The names of the paths that no path of the library places. -/
def roots (lib : Library α) : List PathName :=
  let placed := lib.layers.flatMap Layer.references
  lib.names.filter fun name => !placed.any fun other => other == name

end Library

end Toolpath
