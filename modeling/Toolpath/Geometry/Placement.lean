import Toolpath.Geometry.Point

/-!
Rigid maps of the plane: a turn about the origin followed by a shift, without scaling or mirroring.
-/

set_option autoImplicit false

namespace Toolpath

/-- A turn, given by its cosine and sine, followed by a shift. -/
structure Placement (α : Type) where
  cos : α
  sin : α
  offset : Point α

/-- Two pairs of anchors that no rigid map carries onto each other. -/
structure AnchorMismatch (α : Type) where
  drawn : α
  placed : α

variable {α : Type} [Scalar α]

def AnchorMismatch.message (e : AnchorMismatch α) : String :=
  "Anchor distance mismatch: drawn " ++ Scalar.fixed 3 e.drawn ++ " mm, placed " ++
    Scalar.fixed 3 e.placed ++ " mm"

namespace Placement

def identity : Placement α := ⟨1.0, 0.0, .origin⟩

/-- A turn by `degrees` about the origin, then a shift by `offset`. -/
def rotation (degrees : α) (offset : Point α) : Placement α :=
  let angle := Scalar.radians degrees
  ⟨Scalar.cos angle, Scalar.sin angle, offset⟩

/-- The map that carries the first pair of anchors onto the second. Both pairs must be the same
distance apart; if the anchors of a pair coincide, the map only shifts. -/
def ofAnchors (fromStart fromEnd toStart toEnd : Point α) :
    Except (AnchorMismatch α) (Placement α) :=
  let a := fromStart.vectorTo fromEnd
  let b := toStart.vectorTo toEnd
  let drawn := Scalar.hypot a.x a.y
  let placed := Scalar.hypot b.x b.y
  if positionTolerance < Scalar.abs (drawn - placed) then .error ⟨drawn, placed⟩
  else
    let angle : α :=
      if drawn ≤ positionTolerance then 0.0
      else Scalar.atan2 (a.x * b.y - a.y * b.x) (a.x * b.x + a.y * b.y)
    let cos := Scalar.cos angle
    let sin := Scalar.sin angle
    let turned : Point α :=
      ⟨cos * fromStart.x - sin * fromStart.y, sin * fromStart.x + cos * fromStart.y⟩
    .ok ⟨cos, sin, toStart.x - turned.x, toStart.y - turned.y⟩

def apply (t : Placement α) (p : Point α) : Point α :=
  ⟨t.cos * p.x - t.sin * p.y + t.offset.x, t.sin * p.x + t.cos * p.y + t.offset.y⟩

/-- The angle of the turn, above -180 and up to 180 degrees. -/
def rotationDegrees (t : Placement α) : α := Scalar.degrees (Scalar.atan2 t.sin t.cos)

/-- First `inner`, then `outer`. -/
def andThen (inner outer : Placement α) : Placement α where
  cos := outer.cos * inner.cos - outer.sin * inner.sin
  sin := outer.sin * inner.cos + outer.cos * inner.sin
  offset := outer.apply inner.offset

end Placement

end Toolpath
