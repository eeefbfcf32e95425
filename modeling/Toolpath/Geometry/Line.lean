import Toolpath.Geometry.Placement

/-!
Straight cuts.
-/

set_option autoImplicit false

namespace Toolpath

structure Line (α : Type) where
  start : Point α
  stop : Point α
  deriving BEq

namespace Line

variable {α : Type} [Scalar α]

def length (l : Line α) : α := l.start.distance l.stop

def reversed (l : Line α) : Line α := ⟨l.stop, l.start⟩

def place (l : Line α) (t : Placement α) : Line α := ⟨t.apply l.start, t.apply l.stop⟩

def pointAt (l : Line α) (distance : α) : Point α :=
  if l.length ≤ negligible then l.start else l.start.lerp l.stop (distance / l.length)

def distanceTo (l : Line α) (p : Point α) : α :=
  let d := l.start.vectorTo l.stop
  let squared := d.x * d.x + d.y * d.y
  if squared ≤ negligible then l.start.distance p
  else
    let v := l.start.vectorTo p
    let t := Scalar.clamp ((v.x * d.x + v.y * d.y) / squared) 0.0 1.0
    (l.start.lerp l.stop t).distance p

def slice (l : Line α) (low high : α) : Line α := ⟨l.pointAt low, l.pointAt high⟩

end Line

end Toolpath
