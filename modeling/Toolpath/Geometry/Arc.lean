import Toolpath.Geometry.Placement

/-!
Circular cuts. An arc runs from its start angle to its end angle, counterclockwise or clockwise;
one whose angles are the same direction is a full circle.
-/

set_option autoImplicit false

namespace Toolpath

/-- An arc between two angles, in degrees. -/
structure Arc (α : Type) where
  center : Point α
  radius : α
  startAngle : α
  endAngle : α
  ccw : Bool
  deriving BEq

namespace Arc

variable {α : Type} [Scalar α]

/-- A span up to this many degrees is a full circle. -/
def spanTolerance : α := 1e-9

/-- The arc between two angles, brought into the range from 0 to 360 degrees. -/
def between (center : Point α) (radius startAngle endAngle : α) (ccw : Bool) : Arc α :=
  ⟨center, radius, Scalar.normalizeDegrees startAngle, Scalar.normalizeDegrees endAngle, ccw⟩

def pointAtAngle (a : Arc α) (degrees : α) : Point α :=
  let angle := Scalar.radians degrees
  ⟨a.center.x + a.radius * Scalar.cos angle, a.center.y + a.radius * Scalar.sin angle⟩

def start (a : Arc α) : Point α := a.pointAtAngle a.startAngle

def stop (a : Arc α) : Point α := a.pointAtAngle a.endAngle

/-- The degrees travelled in the direction of the arc, above 0 and up to 360. -/
def sweepDegrees (a : Arc α) : α :=
  let span := Scalar.normalizeDegrees
    (if a.ccw then a.endAngle - a.startAngle else a.startAngle - a.endAngle)
  if span ≤ spanTolerance then 360.0 else span

def length (a : Arc α) : α := a.radius * Scalar.radians a.sweepDegrees

def reversed (a : Arc α) : Arc α := ⟨a.center, a.radius, a.endAngle, a.startAngle, !a.ccw⟩

def place (a : Arc α) (t : Placement α) : Arc α :=
  let turn := t.rotationDegrees
  between (t.apply a.center) a.radius (a.startAngle + turn) (a.endAngle + turn) a.ccw

def angleAt (a : Arc α) (distance : α) : α :=
  if a.radius ≤ negligible then a.startAngle
  else
    let turned := Scalar.degrees (distance / a.radius)
    Scalar.normalizeDegrees (if a.ccw then a.startAngle + turned else a.startAngle - turned)

/-- The distance from a point to the arc: radial within its angles, to an end outside of them. -/
def distanceTo (a : Arc α) (p : Point α) : α :=
  let d := a.center.distance p
  if d ≤ negligible then a.radius
  else
    let angle := Scalar.normalizeDegrees
      (Scalar.degrees (Scalar.atan2 (p.y - a.center.y) (p.x - a.center.x)))
    let offset := Scalar.normalizeDegrees
      (if a.ccw then angle - a.startAngle else a.startAngle - angle)
    if offset ≤ a.sweepDegrees then Scalar.abs (d - a.radius)
    else Scalar.min (a.start.distance p) (a.stop.distance p)

def slice (a : Arc α) (low high : α) : Arc α :=
  between a.center a.radius (a.angleAt low) (a.angleAt high) a.ccw

end Arc

end Toolpath
