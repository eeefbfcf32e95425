import Toolpath.Scalar

/-!
Depths reached step by step. Both ways of going down stop exactly at the floor; they differ in what
counts as being there already.
-/

set_option autoImplicit false

namespace Toolpath.Layers

variable {α : Type} [Scalar α]

/-- Depths closer to the floor than this are not cut on their own. -/
def depthTolerance : α := 1e-6

def enoughSteps (top step floor : α) : Nat := 2 * Scalar.ceilNat ((top - floor) / step) + 2

/-- The depths from `depth` on that are above the floor, and the floor. -/
def depthsFrom (step floor : α) : Nat → α → List α
  | 0, _ => [floor]
  | fuel + 1, depth =>
    if floor + depthTolerance < depth then depth :: depthsFrom step floor fuel (depth - step)
    else [floor]

/-- The depths of the layers from just below `top` down to `floor`. Without a positive step, and if
the floor is not below the top, the floor is the only layer. -/
def depths (top : α) (step : Option α) (floor : α) : List α :=
  match step with
  | some step =>
    if 0.0 < step then depthsFrom step floor (enoughSteps top step floor) (top - step) else [floor]
  | none => [floor]

/-- The depths below `depth`, each a step deeper but none below the floor, until it is reached. -/
def descentFrom (step floor : α) : Nat → α → List α
  | 0, _ => []
  | fuel + 1, depth =>
    if floor < depth then
      let next := if depth - step < floor then floor else depth - step
      next :: descentFrom step floor fuel next
    else []

def descent (top step floor : α) : List α := descentFrom step floor (enoughSteps top step floor) top

end Toolpath.Layers
