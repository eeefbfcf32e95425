import Toolpath.Scalar

/-!
Points of the drawing plane and positions of the tool head, in millimetres.
-/

set_option autoImplicit false

namespace Toolpath

structure Point (α : Type) where
  x : α
  y : α
  deriving BEq

structure Head (α : Type) where
  x : α
  y : α
  z : α
  deriving BEq

variable {α : Type} [Scalar α]

/-- Positions that are no further apart than this are the same position. -/
def positionTolerance : α := 0.001

/-- Lengths up to this, the spacing of doubles at one, and their squares count as zero. -/
def negligible : α := 2.220446049250313e-16

namespace Point

def origin : Point α := ⟨0.0, 0.0⟩

def distance (p q : Point α) : α := Scalar.hypot (p.x - q.x) (p.y - q.y)

def coincides (p q : Point α) : Bool := p.distance q ≤ positionTolerance

/-- The point reached at `t` on the way from `p` at 0 to `q` at 1. -/
def lerp (p q : Point α) (t : α) : Point α := ⟨p.x + (q.x - p.x) * t, p.y + (q.y - p.y) * t⟩

def vectorTo (p q : Point α) : Point α := ⟨q.x - p.x, q.y - p.y⟩

def atHeight (p : Point α) (z : α) : Head α := ⟨p.x, p.y, z⟩

def text (p : Point α) : String :=
  "(" ++ Scalar.fixed 3 p.x ++ ", " ++ Scalar.fixed 3 p.y ++ ")"

end Point

namespace Head

def xy (h : Head α) : Point α := ⟨h.x, h.y⟩

def distance (a b : Head α) : α :=
  Scalar.sqrt
    (Scalar.square (a.x - b.x) + Scalar.square (a.y - b.y) + Scalar.square (a.z - b.z))

def text (h : Head α) : String :=
  "(" ++ Scalar.fixed 3 h.x ++ ", " ++ Scalar.fixed 3 h.y ++ ", " ++ Scalar.fixed 3 h.z ++ ")"

end Head

end Toolpath
