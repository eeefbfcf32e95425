import Toolpath.Geometry.Shape
import Toolpath.Params.Overlay

/-!
The elements of a drawing: cuts, holes, travels, places for other paths and bed probes.
-/

set_option autoImplicit false

namespace Toolpath

/-- What an element is and where. -/
inductive ElementKind (α : Type)
  /-- A line or an arc to be milled, as a mark or at full depth. -/
  | cut (shape : Shape α) (mark : Bool)
  /-- A round pocket, milled as a descending spiral. -/
  | helix (center : Point α) (radius : α) (mark : Bool)
  | drill (center : Point α) (mark : Bool)
  /-- A travel at sweep height. -/
  | sweep (start stop : Point α)
  /-- A travel at sweep height with parameters of its own. -/
  | backSweep (start stop : Point α)
  /-- Another path, placed between two points. -/
  | subPath (start stop : Point α) (target : PathName)
  /-- A place where the bed is measured; it is not part of the route. -/
  | probe (position : Point α)
  deriving BEq

structure Element (α : Type) where
  kind : ElementKind α
  /-- Rank among the elements that a route could go on with, the lowest first. -/
  order : Option Int
  params : ParamTexts
  deriving BEq

namespace Element

variable {α : Type} [Scalar α]

def start (e : Element α) : Point α :=
  match e.kind with
  | .cut shape _ => shape.start
  | .helix center _ _ => center
  | .drill center _ => center
  | .sweep start _ => start
  | .backSweep start _ => start
  | .subPath start _ _ => start
  | .probe position => position

def stop (e : Element α) : Point α :=
  match e.kind with
  | .cut shape _ => shape.stop
  | .helix center _ _ => center
  | .drill center _ => center
  | .sweep _ stop => stop
  | .backSweep _ stop => stop
  | .subPath _ stop _ => stop
  | .probe position => position

omit [Scalar α] in
def preference (e : Element α) : Nat :=
  match e.kind with
  | .drill .. => 0
  | .helix .. => 1
  | .subPath .. => 2
  | .cut .. => 3
  | .sweep .. | .backSweep .. => 4
  | .probe .. => 5

def length (e : Element α) : α :=
  match e.kind with
  | .cut shape _ => shape.length
  | _ => e.start.distance e.stop

omit [Scalar α] in
def reversed (e : Element α) : Element α :=
  { e with kind :=
      match e.kind with
      | .cut shape mark => .cut shape.reversed mark
      | .sweep start stop => .sweep stop start
      | .backSweep start stop => .backSweep stop start
      | .subPath start stop target => .subPath stop start target
      | kind => kind }

omit [Scalar α] in
def isProbe (e : Element α) : Bool :=
  match e.kind with
  | .probe _ => true
  | _ => false

omit [Scalar α] in
def isMark (e : Element α) : Bool :=
  match e.kind with
  | .cut _ mark | .helix _ _ mark | .drill _ mark => mark
  | _ => false

omit [Scalar α] in
def level (e : Element α) : Level :=
  match e.kind with
  | .cut _ true => .mark
  | .cut _ false => .mill
  | .helix .. => .helix
  | .drill .. => .drill
  | .sweep .. => .sweep
  | .backSweep .. => .backSweep
  | .subPath .. => .subPath
  | .probe .. => .zProbe

omit [Scalar α] in
def levels (e : Element α) : List Level :=
  match e.kind with
  | .cut _ true => [.chain, .mark]
  | .cut _ false => [.chain, .mill]
  | .helix _ _ true => [.mark, .helix]
  | .helix _ _ false => [.helix]
  | .drill _ true => [.mark, .drill]
  | .drill _ false => [.drill]
  | .sweep .. => [.sweep]
  | .backSweep .. => [.sweep, .backSweep]
  | .subPath .. => [.subPath]
  | .probe .. => [.zProbe]

omit [Scalar α] in
def kindName (e : Element α) : String :=
  match e.kind with
  | .cut shape _ => shape.kindName
  | .helix .. => "Helix"
  | .drill .. => "Drill"
  | .sweep .. => "Sweep"
  | .backSweep .. => "BackSweep"
  | .subPath .. => "SubPath"
  | .probe .. => "ZProbe"

def context (e : Element α) (path : PathName) : Context α :=
  .ofElement path e.kindName e.start

omit [Scalar α] in
def rank (e : Element α) : Int := e.order.getD (twoPow 63 - 1 : Nat)

/-- Which of two elements a route goes on with: by the given rank, by kind, then by length. -/
def branchCompare (a b : Element α) : Ordering :=
  (compare a.rank b.rank).then
    ((compare a.preference b.preference).then (Scalar.totalCompare a.length b.length))

end Element

end Toolpath
