import Toolpath.Layers
import Toolpath.Params.Settings

/-!
Round holes. A hole is drilled straight down, in pecks if a step is given; a hole wider than the bit
is milled along a descending spiral, with a full circle at the floor and a cut to the center.
-/

set_option autoImplicit false

namespace Toolpath

structure HoleParams (α : Type) where
  top : α
  bottom : α
  /-- Greatest depth of a plunge, or zero for a single one. -/
  peck : α
  plungeRate : α
  feedRate : α
  /-- Height for travels. -/
  safe : α

namespace HoleParams

variable {α : Type} [Scalar α]

/-- Height above the last depth down to which the drill goes back as a rapid. -/
def peckClearance : α := 0.5

/-- Descent in one turn of a spiral if no step is given. -/
def defaultPitch : α := 1.0

def ofSettings (settings : Settings α) : Except (EmitError α) (HoleParams α) := do
  let feeds ← settings.feeds
  let top ← settings.require .top
  let bottom ← settings.require .bottom
  let safe ← settings.require .sweepHeight
  return ⟨top, bottom, (settings.get? .step).getD 0.0, feeds.plunge, feeds.feed, safe⟩

def liftToSafe (p : HoleParams α) (w : Writer α) : Writer α :=
  if w.head.z < p.safe then w.rapidTo p.safe else w

def approach (p : HoleParams α) (w : Writer α) (setup : Setup α) (center : Point α) : Writer α :=
  let w := if w.head.xy.coincides center then w else (p.liftToSafe w).travelTo center none
  if p.top < w.head.z then w.rapidToCorrected setup p.top
  else w.moveToHeight setup p.top p.plungeRate

/-- One peck: down to a depth, out to the surface and, above the floor, back in. -/
def peckTo (p : HoleParams α) (setup : Setup α) (w : Writer α) (z : α) : Writer α :=
  let w := (w.drillTo setup z p.plungeRate).rapidToCorrected setup p.top
  if p.bottom < z then w.rapidToCorrected setup (z + peckClearance) else w

/-- Drills a hole and ends at the safe height. -/
def drill (p : HoleParams α) (w : Writer α) (setup : Setup α) (center : Point α) : Writer α :=
  let w := p.approach w setup center
  let w :=
    if p.peck ≤ 0.0 then
      (w.comment "Simple drilling cycle").drillTo setup p.bottom p.plungeRate
    else
      (Layers.descent p.top p.peck p.bottom).foldl (p.peckTo setup)
        (w.comment "Peck drilling cycle")
  w.rapidTo p.safe

def pitch (p : HoleParams α) : α := if 0.0 < p.peck then p.peck else defaultPitch

/-- Mills a hole of some radius with a bit of some diameter, or drills it if the hole is not wider
than the bit. -/
def bore (p : HoleParams α) (w : Writer α) (setup : Setup α) (center : Point α)
    (holeRadius bitDiameter : α) : Writer α :=
  let radius := holeRadius - bitDiameter / 2.0
  if radius ≤ positionTolerance then
    let w := w.comment
      ("Hole radius " ++ Scalar.fixed 3 holeRadius ++ " not wider than tool, drilling instead")
    p.drill w setup center
  else
    let start : Point α := ⟨center.x + radius, center.y⟩
    let w := (p.liftToSafe (w.comment "Helical interpolation cycle")).travelTo start none
    let w := if p.top < w.head.z then w.rapidToCorrected setup p.top else w
    let turn := 2.0 * Scalar.pi * radius
    let circle (w : Writer α) (z : α) : Writer α :=
      w.millArc setup start center false z turn p.feedRate
    let w := (Layers.descent p.top p.pitch p.bottom).foldl circle w
    ((circle w p.bottom).millLine setup center p.bottom p.feedRate).rapidTo p.safe

end HoleParams

end Toolpath
