import Toolpath.Geometry.Shape

/-!
Bridges that keep a part tied to the stock while its contour is cut. The shape is divided into
equal cells, as many as fit, with one bridge in the middle of each; on both sides of a bridge a ramp
carries the change of depth, if there is room for one.
-/

set_option autoImplicit false

namespace Toolpath

/-- Lengths that decide where bridges stand, in millimetres. -/
structure BridgeSpec (α : Type) where
  /-- Length without bridge at both ends of the shape. -/
  margin : α
  width : α
  /-- Least length between bridges. -/
  minRun : α
  /-- Length of the slope on each side of a bridge. -/
  ramp : α

/-- How deep a piece is cut. -/
inductive PieceRole
  | full
  | rampIn
  | bridge
  | rampOut
  deriving DecidableEq, Repr

/-- A part of a length, between two distances from its start. -/
structure Span (α : Type) where
  role : PieceRole
  low : α
  high : α

structure Piece (α : Type) where
  role : PieceRole
  shape : Shape α

namespace BridgeSpec

variable {α : Type} [Scalar α]

/-- Lengths up to this do not count. -/
def lengthTolerance : α := 1e-9

/-- The spans of `remaining` cells from cell `k` on, where the last ramp ended at `cursor`. -/
def spansFrom (spec : BridgeSpec α) (total cell ramp : α) : Nat → Nat → α → List (Span α)
  | 0, _, cursor => [⟨.full, cursor, total⟩]
  | remaining + 1, k, cursor =>
    let low := (k : α) * cell + (cell - spec.width) / 2.0
    let high := low + spec.width
    let sloped : Bool := lengthTolerance < ramp
    [⟨.full, cursor, low - ramp⟩] ++
      (if sloped then [⟨.rampIn, low - ramp, low⟩] else []) ++
      [⟨.bridge, low, high⟩] ++
      (if sloped then [⟨.rampOut, high, high + ramp⟩] else []) ++
      spansFrom spec total cell ramp remaining (k + 1) (high + ramp)

/-- The spans of a whole length, and none if it is too short for a bridge. -/
def layout (spec : BridgeSpec α) (length : α) : List (Span α) :=
  let cellMin := spec.width + spec.minRun
  if Scalar.isNaN length ∨ length ≤ 0.0 ∨ cellMin ≤ 0.0 ∨ spec.width ≤ 0.0 then []
  else
    let count := Scalar.floorNat ((length + lengthTolerance) / cellMin)
    if count = 0 then []
    else
      let cell := length / (count : α)
      let ramp := Scalar.max spec.ramp 0.0
      let outerRun := (cell - spec.width) / 2.0 - ramp
      if outerRun + lengthTolerance < Scalar.max spec.margin 0.0 ∨ outerRun < 0.0 then []
      else spansFrom spec length cell ramp count 0 0.0

/-- The pieces of a shape, and none if it is too short for a bridge. -/
def pieces (spec : BridgeSpec α) (shape : Shape α) : List (Piece α) :=
  (spec.layout shape.length).map fun span => ⟨span.role, shape.slice span.low span.high⟩

end BridgeSpec

end Toolpath
