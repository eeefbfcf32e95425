import Toolpath.Geometry.Bridges
import Toolpath.Layers
import Toolpath.Params.Settings

/-!
Milling of connected cuts in layers. Every cut is divided at its bridges, every piece into passes
from the top down to its own floor. The passes of a piece form a pile of which only the uppermost
can be cut; the mill always goes on with the nearest end of a pass that can be cut.
-/

set_option autoImplicit false

namespace Toolpath

/-- One cut of a chain, in the coordinates of its path. -/
structure Cut (α : Type) where
  shape : Shape α
  mark : Bool
  settings : Settings α

/-- What neighbouring cuts must have in common to be milled together. -/
structure ChainKey (α : Type) where
  mark : Bool
  top : α
  step : Option α
  feed : α
  deriving BEq

/-- One layer of one piece. -/
structure Pass (α : Type) where
  shape : Shape α
  zStart : α
  zEnd : α
  feeds : CutFeeds α
  sweepHeight : α
  top : α

/-- A piece of a cut with the depth of its floor at both ends. -/
structure FlooredPiece (α : Type) where
  shape : Shape α
  floorStart : α
  floorEnd : α

/-- Consecutive cuts that are milled together. -/
abbrev MillChain (α : Type) := List (Cut α)

variable {α : Type} [Scalar α]

def ChainKey.ofSettings (settings : Settings α) (mark : Bool) :
    Except (EmitError α) (ChainKey α) := do
  let top ← settings.require .top
  let feed ← settings.require .feedRate
  return ⟨mark, top, settings.get? .step, feed⟩

namespace Pass

def deepest (p : Pass α) : α := Scalar.min p.zStart p.zEnd

def reversed (p : Pass α) : Pass α :=
  { p with shape := p.shape.reversed, zStart := p.zEnd, zEnd := p.zStart }

def startHead (p : Pass α) (setup : Setup α) : Head α :=
  (setup.apply p.shape.start).atHeight p.zStart

def endHead (p : Pass α) (setup : Setup α) : Head α := (setup.apply p.shape.stop).atHeight p.zEnd

end Pass

namespace Cut

/-- The floor of a piece at its ends: bridges rise to their top, ramps to it from the bottom. -/
def floors (bottom bridge : α) (piece : Piece α) : FlooredPiece α :=
  match piece.role with
  | .full => ⟨piece.shape, bottom, bottom⟩
  | .rampIn => ⟨piece.shape, bottom, bridge⟩
  | .bridge => ⟨piece.shape, bridge, bridge⟩
  | .rampOut => ⟨piece.shape, bridge, bottom⟩

/-- The pieces of a cut; a mark, and a cut without room for bridges, is one piece. -/
def pieces (c : Cut α) : Except (EmitError α) (List (FlooredPiece α)) := do
  let bottom ← c.settings.require .bottom
  let whole := [⟨c.shape, bottom, bottom⟩]
  if c.mark then return whole
  match c.settings.get? .barWidth with
  | none => return whole
  | some width =>
    let minRun ← c.settings.require .barRun
    let height ← c.settings.require .barHeight
    let spec : BridgeSpec α :=
      { margin := (c.settings.get? .barMargin).getD 0.0
        width := width
        minRun := minRun
        ramp := (c.settings.get? .barRamp).getD 0.0 }
    match spec.pieces c.shape with
    | [] => return whole
    | pieces => return pieces.map (floors bottom (bottom + height))

/-- The heights of the layers of a piece at its two ends, without those that differ from the layer
above them by next to nothing. -/
def layersBelow (piece : FlooredPiece α) : Option (α × α) → List α → List (α × α)
  | _, [] => []
  | above, depth :: rest =>
    let zStart := Scalar.max depth piece.floorStart
    let zEnd := Scalar.max depth piece.floorEnd
    let repeated := above.any fun (lastStart, lastEnd) =>
      decide (Scalar.abs (lastStart - zStart) < Layers.depthTolerance) &&
        decide (Scalar.abs (lastEnd - zEnd) < Layers.depthTolerance)
    if repeated then layersBelow piece above rest
    else (zStart, zEnd) :: layersBelow piece (some (zStart, zEnd)) rest

def layers (piece : FlooredPiece α) (top : α) (step : Option α) : List (α × α) :=
  layersBelow piece none (Layers.depths top step (Scalar.min piece.floorStart piece.floorEnd))

/-- The passes of a cut, one pile for each piece. -/
def piles (c : Cut α) : Except (EmitError α) (List (List (Pass α))) := do
  let top ← c.settings.require .top
  let feeds ← c.settings.feeds
  let sweepHeight ← c.settings.require .sweepHeight
  let pieces ← c.pieces
  return pieces.map fun piece =>
    (layers piece top (c.settings.get? .step)).map fun (zStart, zEnd) =>
      ⟨piece.shape, zStart, zEnd, feeds, sweepHeight, top⟩

end Cut

namespace MillChain

def stop (chain : MillChain α) : Option (Point α) := chain.getLast?.map fun cut => cut.shape.stop

/-- The passes of all cuts, one pile for each piece. -/
def piles : MillChain α → Except (EmitError α) (List (List (Pass α)))
  | [] => .ok []
  | cut :: rest => do
    let first ← cut.piles
    let later ← piles rest
    return first ++ later

def numbered : Nat → List (List (Pass α)) → List (List (Nat × Pass α))
  | _, [] => []
  | first, pile :: rest =>
    (pile.zipIdx first).map Prod.swap :: numbered (first + pile.length) rest

/-- The passes of a numbered pile with the number of the pass above each. -/
def linked : Option Nat → List (Nat × Pass α) → List (Pass α × Option Nat)
  | _, [] => []
  | above, (i, pass) :: rest => (pass, above) :: linked (some i) rest

/-- All passes in the order of their numbers, each with the number of the pass right above it. -/
def passes (chain : MillChain α) : Except (EmitError α) (List (Pass α × Option Nat)) := do
  let piles ← chain.piles
  return (numbered 0 piles).flatMap (linked none)

/-- An end of a pass that the mill could go on with. -/
structure Choice (α : Type) where
  /-- The place of the pile among all. -/
  pile : Nat
  index : Nat
  pass : Pass α
  reversed : Bool
  distance : α

def nearer (best : Option (Choice α)) (c : Choice α) : Option (Choice α) :=
  match best with
  | none => some c
  | some b => if c.distance < b.distance then some c else some b

def choices (setup : Setup α) (head : Head α) (piles : List (List (Nat × Pass α))) :
    List (Choice α) :=
  piles.zipIdx.flatMap fun (pile, s) =>
    match pile with
    | [] => []
    | (i, pass) :: _ =>
      [⟨s, i, pass, false, head.distance (pass.startHead setup)⟩,
       ⟨s, i, pass, true, head.distance (pass.endHead setup)⟩]

/-- Brings the head over a point and, if the pass goes into the material, down to the surface. -/
def approach (w : Writer α) (setup : Setup α) (dest : Point α) (pass : Pass α) : Writer α :=
  let w :=
    if w.head.xy.coincides dest then w
    else
      let w := if w.head.z < pass.sweepHeight then w.rapidTo pass.sweepHeight else w
      w.travelTo dest none
  if pass.top < w.head.z ∧ pass.deepest < pass.top then w.rapidToCorrected setup pass.top else w

def cutPass (w : Writer α) (setup : Setup α) (c : Choice α) : Writer α :=
  let pass := if c.reversed then c.pass.reversed else c.pass
  let w := approach w setup (setup.apply pass.shape.start) pass
  pass.shape.mill w setup pass.zStart pass.zEnd pass.feeds

/-- The choices of the mill, one after the other, and the writer after them. -/
def tour (setup : Setup α) :
    Nat → List (List (Nat × Pass α)) → Writer α → List (Choice α) × Writer α
  | 0, _, w => ([], w)
  | steps + 1, piles, w =>
    match (choices setup w.head piles).foldl nearer none with
    | none => ([], w)
    | some c =>
      let (later, w) := tour setup steps (piles.modify c.pile List.tail) (cutPass w setup c)
      (c :: later, w)

def fullTour (setup : Setup α) (piles : List (List (Pass α))) (w : Writer α) :
    List (Choice α) × Writer α :=
  tour setup piles.flatten.length (numbered 0 piles) w

/-- Brings the head over the end of the chain. -/
def finish (chain : MillChain α) (w : Writer α) (setup : Setup α) :
    Except (EmitError α) (Writer α) :=
  match chain.getLast? with
  | none => .ok w
  | some last =>
    let stop := setup.apply last.shape.stop
    if w.head.xy.coincides stop then .ok w
    else do
      let sweepHeight ← last.settings.require .sweepHeight
      let w := if w.head.z < sweepHeight then w.rapidTo sweepHeight else w
      return w.travelTo stop none

def mill (chain : MillChain α) (w : Writer α) (setup : Setup α) :
    Except (EmitError α) (Writer α) := do
  let piles ← chain.piles
  chain.finish (fullTour setup piles w).2 setup

end MillChain

end Toolpath
