import Toolpath.Geometry.Arc
import Toolpath.Geometry.Line

/-!
What can be cut in one move: a line or an arc.
-/

set_option autoImplicit false

namespace Toolpath

inductive Shape (α : Type)
  | line (l : Line α)
  | arc (a : Arc α)
  deriving BEq

namespace Shape

variable {α : Type} [Scalar α]

def start : Shape α → Point α
  | line l => l.start
  | arc a => a.start

def stop : Shape α → Point α
  | line l => l.stop
  | arc a => a.stop

def length : Shape α → α
  | line l => l.length
  | arc a => a.length

def reversed : Shape α → Shape α
  | line l => line l.reversed
  | arc a => arc a.reversed

def place (s : Shape α) (t : Placement α) : Shape α :=
  match s with
  | line l => line (l.place t)
  | arc a => arc (a.place t)

def distanceTo (s : Shape α) (p : Point α) : α :=
  match s with
  | line l => l.distanceTo p
  | arc a => a.distanceTo p

def slice (s : Shape α) (low high : α) : Shape α :=
  match s with
  | line l => line (l.slice low high)
  | arc a => arc (a.slice low high)

def kindName : Shape α → String
  | line _ => "Line"
  | arc _ => "Arc"

end Shape

end Toolpath
