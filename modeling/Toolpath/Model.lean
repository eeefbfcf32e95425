import Toolpath.Hole
import Toolpath.Layer
import Toolpath.MillChain
import Toolpath.Program.DeadTravel
import Toolpath.Program.Statistics

/-!
Paths with everything resolved, and the programs that they give. A model holds its route with the
settings of every element and, for a placed path, the model of that path and its placement.
-/

set_option autoImplicit false

namespace Toolpath

/-- An element of a route with its settings and the path that it places. -/
structure Placed (α μ : Type) where
  /-- The element in the direction of travel. -/
  element : Element α
  settings : Settings α
  /-- The placed path, and the map from its coordinates into those of this path. -/
  sub : Option (μ × Placement α)

structure Model (α : Type) where
  name : PathName
  settings : Settings α
  start : Point α
  stop : Point α
  elements : List (Placed α (Model α))
  /-- The bed probes in the coordinates of this path, those of placed paths among them. -/
  probes : List (BedProbe α)

structure Program (α : Type) where
  name : PathName
  records : List (Record α)
  statistics : Statistics α

variable {α : Type} [Scalar α]

namespace Program

def ofRecords (name : PathName) (records : List (Record α)) : Program α :=
  ⟨name, records, .ofRecords records⟩

omit [Scalar α] in
def text (p : Program α) : String := String.join (p.records.map fun r => r.text ++ "\n")

def summary (p : Program α) : String :=
  let s := p.statistics
  "path " ++ p.name.text ++ ": " ++ toString s.commands ++ " commands, mill " ++
    Scalar.fixed 0 s.millLength ++ " mm, drill " ++ Scalar.fixed 0 s.drillLength ++
    " mm, sweep " ++ Scalar.fixed 0 s.sweepLength ++ " mm, about " ++
    toString s.roundedMinutes ++ " min"

end Program

namespace Model

abbrev OpenChain (α : Type) := Option (ChainKey α × MillChain α)

def closeChain (chain : OpenChain α) (w : Writer α) (setup : Setup α) :
    Except (EmitError α) (Writer α) :=
  match chain with
  | none => .ok w
  | some (_, cuts) => cuts.mill w setup

def emitSingle (element : Element α) (settings : Settings α) (w : Writer α) (setup : Setup α) :
    Except (EmitError α) (Writer α) :=
  match element.kind with
  | .drill center _ => do
    let p ← HoleParams.ofSettings settings
    return p.drill w setup (setup.apply center)
  | .helix center radius _ => do
    let p ← HoleParams.ofSettings settings
    let bit ← settings.require .bitDiameter
    return p.bore w setup (setup.apply center) radius bit
  | .sweep _ stop | .backSweep _ stop => do
    let height ← settings.require .sweepHeight
    let rate ← settings.require .sweepRate
    return (w.rapidTo height).travelTo (setup.apply stop) (some rate)
  | _ => .ok w

mutual

/-- Writes the moves of a path. The head must be over its start and is left over its end. -/
def emit (setup : Setup α) (w : Writer α) : Model α → Except (EmitError α) (Writer α)
  | ⟨_, _, _, _, elements, _⟩ => emitElements setup none w elements

/-- Writes the moves of the elements of a route. Neighbouring cuts with one key go into one chain,
which is milled as soon as an element does not belong to it. -/
def emitElements (setup : Setup α) (chain : OpenChain α) (w : Writer α) :
    List (Placed α (Model α)) → Except (EmitError α) (Writer α)
  | [] => closeChain chain w setup
  | ⟨element, settings, sub⟩ :: rest =>
    match element.kind with
    | .cut shape mark => do
      let key ← ChainKey.ofSettings settings mark
      let cut : Cut α := ⟨shape, mark, settings⟩
      match chain with
      | some (shared, cuts) =>
        if key == shared then emitElements setup (some (shared, cuts ++ [cut])) w rest
        else do
          let w ← closeChain chain w setup
          emitElements setup (some (key, [cut])) w rest
      | none => emitElements setup (some (key, [cut])) w rest
    | .subPath _ _ target => do
      let w ← closeChain chain w setup
      match sub with
      | none => .error (.missingPath target)
      | some (model, placement) =>
        let w ← emit (setup.nested placement) (w.comment ("sub-path " ++ model.name.text)) model
        emitElements setup none w rest
    | _ => do
      let w ← closeChain chain w setup
      let w ← emitSingle element settings w setup
      emitElements setup none w rest

end

def startHead (sweepHeight : α) : Head α := ⟨0.0, 0.0, sweepHeight⟩

/-- Units and coordinates, and the first move up to the sweep height. -/
def preamble (w : Writer α) (sweepHeight : α) : Writer α :=
  (w.other "G21 G90").other ("G00 Z" ++ Scalar.coordinate sweepHeight)

def probeComment (probe : BedProbe α) (index : Nat) : String :=
  "bed probe #" ++ toString (probeVariable index) ++ " at " ++ probe.position.text ++
    ", expected height " ++ Scalar.coordinate probe.target

def header (m : Model α) (sweepHeight : α) : Writer α :=
  let w := (Writer.start (startHead sweepHeight)).comment ("path " ++ m.name.text)
  let w := match m.settings.get? .bitDiameter with
    | some bit => w.comment ("bit diameter " ++ Scalar.coordinate bit ++ " mm")
    | none => w
  let w := m.probes.zipIdx.foldl (fun w (probe, i) => w.comment (probeComment probe i)) w
  (preamble w sweepHeight).travelTo m.start none

/-- The last move up to the sweep height, and the end of the program. -/
def footer (w : Writer α) (sweepHeight : α) : Writer α :=
  let w := if w.head.z < sweepHeight then w.rapidTo sweepHeight else w
  w.other "M30"

/-- The records of the whole path, before dead travels are removed. -/
def rawRecords (m : Model α) : Except (EmitError α) (List (Record α)) := do
  let sweepHeight ← m.settings.require .sweepHeight
  let w ← m.emit ⟨.identity, m.probes⟩ (m.header sweepHeight)
  return (footer w sweepHeight).records

def generate (m : Model α) : Except (EmitError α) (Program α) := do
  let records ← m.rawRecords
  return .ofRecords m.name (DeadTravel.remove records)

/-- How far below its target a probe may go. -/
def probeTravel : α := 5.0

def measure (sweepHeight plunge : α) (w : Writer α) (probe : BedProbe α) (index : Nat) :
    Writer α :=
  let w := w.travelTo probe.position none
  let w := w.other
    ("G38.2 Z" ++ Scalar.coordinate (probe.target - probeTravel) ++ " F" ++
      Writer.feedText plunge)
  let w := w.other ("#" ++ toString (probeVariable index) ++ "=#5063")
  w.other ("G00 Z" ++ Scalar.coordinate sweepHeight)

/-- The program that measures every probe of the path, if it has any. -/
def probing (m : Model α) : Except (EmitError α) (Option (Program α)) :=
  if m.probes.isEmpty then .ok none
  else do
    let sweepHeight ← m.settings.require .sweepHeight
    let feeds ← m.settings.feeds
    let w := (Writer.start (startHead sweepHeight)).comment
      ("bed probing for path " ++ m.name.text)
    let w := m.probes.zipIdx.foldl (fun w (probe, i) => measure sweepHeight feeds.plunge w probe i)
      (preamble w sweepHeight)
    return some (.ofRecords m.name (w.other "M30").records)

/-- Assignments that stand for a measurement of a flat bed: every probe at its target. -/
def nominalHeights (m : Model α) : String :=
  String.join (m.probes.zipIdx.map fun (probe, i) =>
    "#" ++ toString (probeVariable i) ++ "=" ++ Scalar.coordinate probe.target ++ "\n")

omit [Scalar α] in
def withoutPlaced (m : Model α) : Model α :=
  { m with elements := m.elements.map fun p => { p with sub := none } }

end Model

end Toolpath
