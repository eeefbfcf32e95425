import Toolpath.Proofs.Geometry.Motions
import Toolpath.Proofs.Model.Tasks
import Toolpath.Proofs.Program.Moves

/-!
Where moves leave the head. A travel, in exact arithmetic, leaves it at its target and a rapid at
its height, up to next to nothing. So a hole leaves the head over its center and a chain of cuts
over its end, up to the tolerance of positions.
-/

set_option autoImplicit false

namespace Toolpath

/-- Where the head is when it has gone to a point: it stays where it is taken to be there already.
-/
noncomputable def Point.reached (p dest : Point ℝ) : Point ℝ := if p.coincides dest then p else dest

theorem Point.distance_reached_le (p dest : Point ℝ) :
    (p.reached dest).distance dest ≤ positionTolerance := by
  unfold reached
  split
  · next hnear => exact coincides_iff.mp hnear
  · rw [distance_self]
    exact le_of_lt positionTolerance_pos

namespace Writer

/-- The head is over a point, up to the tolerance of positions. -/
def Over (w : Writer ℝ) (p : Point ℝ) : Prop := w.head.xy.distance p ≤ positionTolerance

variable {w w' : Writer ℝ} {p : Point ℝ}

private theorem Over.of_xy_eq (h : w.Over p) (same : w'.head.xy = w.head.xy) : w'.Over p := by
  unfold Over
  rw [same]
  exact h

private theorem over_of_xy_eq (h : w.head.xy = p) : w.Over p := by
  unfold Over
  rw [h, Point.distance_self]
  exact le_of_lt positionTolerance_pos

private theorem moveTolerance_le : (moveTolerance : ℝ) ≤ positionTolerance := by
  norm_num [moveTolerance, positionTolerance]

theorem moveTolerance_nonneg : (0 : ℝ) ≤ moveTolerance := by
  norm_num [moveTolerance]

theorem distance_self_le (p : Point ℝ) : p.distance p ≤ moveTolerance := by
  rw [Point.distance_self]
  exact moveTolerance_nonneg

private theorem abs_sub_self_le (z : ℝ) : |z - z| ≤ moveTolerance := by
  rw [sub_self, abs_zero]
  exact moveTolerance_nonneg

private theorem distance_travelTo_le (w : Writer ℝ) (dest : Point ℝ) (rate : Option ℝ) :
    (w.travelTo dest rate).head.xy.distance dest ≤ moveTolerance := by
  rw [xy_travelTo]
  split
  · next hnear => exact hnear
  · exact distance_self_le dest

theorem over_travelTo (w : Writer ℝ) (dest : Point ℝ) (rate : Option ℝ) :
    (w.travelTo dest rate).Over dest :=
  le_trans (distance_travelTo_le w dest rate) moveTolerance_le

private theorem near_lift (w : Writer ℝ) (z : ℝ) (text : String) :
    |(w.lift z text).head.z - z| ≤ moveTolerance := by
  unfold lift
  dsimp only
  split
  · next hnear => rwa [RealScalar.abs_eq] at hnear
  · exact abs_sub_self_le z

theorem near_rapidTo (w : Writer ℝ) (z : ℝ) : |(w.rapidTo z).head.z - z| ≤ moveTolerance :=
  w.near_lift z _

theorem near_rapidToCorrected (w : Writer ℝ) (setup : Setup ℝ) (z : ℝ) :
    |(w.rapidToCorrected setup z).head.z - z| ≤ moveTolerance :=
  w.near_lift z _

private theorem near_moveToHeight (w : Writer ℝ) (setup : Setup ℝ) (z feed : ℝ) :
    |(w.moveToHeight setup z feed).head.z - z| ≤ moveTolerance := by
  unfold moveToHeight
  split
  · exact abs_sub_self_le z
  · next hnotAbove =>
    split
    · exact w.near_rapidToCorrected setup z
    · next hnotBelow =>
      rw [abs_le]
      constructor <;> linarith

theorem le_lifted (w : Writer ℝ) (sweep : ℝ) : sweep - moveTolerance ≤ (w.lifted sweep).head.z := by
  unfold lifted
  split
  · linarith [(abs_le.mp (w.near_rapidTo sweep)).1]
  · next hnotBelow =>
    have htolerance := moveTolerance_nonneg
    linarith

private theorem xy_travelTo_of_far {w : Writer ℝ} {dest : Point ℝ}
    (far : ¬ w.head.xy.coincides dest = true)
    (rate : Option ℝ) : (w.travelTo dest rate).head.xy = dest := by
  have hmoves : ¬ w.head.xy.distance dest ≤ moveTolerance := by
    intro hnear
    exact far (Point.coincides_iff.mpr (le_trans hnear moveTolerance_le))
  rw [xy_travelTo, if_neg hmoves]

theorem xy_reach (w : Writer ℝ) (sweep : ℝ) (dest : Point ℝ) :
    (if w.head.xy.coincides dest then w else (w.lifted sweep).travelTo dest none).head.xy =
      w.head.xy.reached dest := by
  unfold Point.reached
  split
  · rfl
  · next hfar =>
    apply xy_travelTo_of_far
    rwa [xy_lifted]

private theorem over_reach (w : Writer ℝ) (sweep : ℝ) (dest : Point ℝ) :
    (if w.head.xy.coincides dest then w else (w.lifted sweep).travelTo dest none).Over dest := by
  unfold Over
  rw [xy_reach]
  exact Point.distance_reached_le _ dest

end Writer

open Writer (Over)

namespace HoleParams

variable (p : HoleParams ℝ) (w : Writer ℝ) (setup : Setup ℝ)

private theorem over_approach (center : Point ℝ) : (p.approach w setup center).Over center := by
  have hdown (w : Writer ℝ) :
      (if p.top < w.head.z then w.rapidToCorrected setup p.top
        else w.moveToHeight setup p.top p.plungeRate).head.xy = w.head.xy := by
    split
    · exact w.xy_rapidToCorrected setup p.top
    · exact w.xy_moveToHeight setup p.top p.plungeRate
  exact (w.over_reach p.safe center).of_xy_eq (hdown _)

theorem near_approach (center : Point ℝ) :
    |(p.approach w setup center).head.z - p.top| ≤ Writer.moveTolerance := by
  have hdown (w : Writer ℝ) :
      |(if p.top < w.head.z then w.rapidToCorrected setup p.top
        else w.moveToHeight setup p.top p.plungeRate).head.z - p.top| ≤ Writer.moveTolerance := by
    split
    · exact w.near_rapidToCorrected setup p.top
    · exact w.near_moveToHeight setup p.top p.plungeRate
  exact hdown _

private theorem xy_peckTo (z : ℝ) : (p.peckTo setup w z).head.xy = w.head.xy := by
  have hout : ((w.drillTo setup z p.plungeRate).rapidToCorrected setup p.top).head.xy =
      w.head.xy := Writer.xy_rapidToCorrected _ _ _
  unfold peckTo
  dsimp only
  split
  · rw [Writer.xy_rapidToCorrected, hout]
  · exact hout

private theorem xy_pecks (depths : List ℝ) :
    (depths.foldl (p.peckTo setup) w).head.xy = w.head.xy := by
  induction depths generalizing w with
  | nil => rfl
  | cons z depths ih => rw [List.foldl_cons, ih, xy_peckTo]

theorem over_drill (center : Point ℝ) : (p.drill w setup center).Over center := by
  have hover := p.over_approach w setup center
  unfold drill
  dsimp only
  split
  · exact hover.of_xy_eq (Writer.xy_rapidTo _ _)
  · refine hover.of_xy_eq ?_
    rw [Writer.xy_rapidTo, xy_pecks]
    rfl

theorem over_bore (center : Point ℝ) (holeRadius bitDiameter : ℝ) :
    (p.bore w setup center holeRadius bitDiameter).Over center := by
  unfold bore
  dsimp only
  split
  · exact p.over_drill _ setup center
  · apply Writer.over_of_xy_eq
    rw [Writer.xy_rapidTo]
    rfl

end HoleParams

namespace MillChain

variable {chain : MillChain ℝ} {w w' : Writer ℝ} {setup : Setup ℝ}

private theorem over_finish (h : chain.finish w setup = .ok w') {stop : Point ℝ}
    (ends : chain.stop = some stop) : w'.Over (setup.apply stop) := by
  obtain ⟨last, hlast, rfl⟩ := Option.map_eq_some_iff.mp ends
  rw [finish, hlast] at h
  dsimp only at h
  split at h
  · next hover =>
    obtain rfl := Except.ok.inj h
    exact Point.coincides_iff.mp hover
  · obtain ⟨sweep, -, h⟩ := Model.bind_eq_ok.mp h
    obtain rfl := Except.ok.inj h
    exact Writer.over_travelTo _ _ none

theorem over_mill (h : chain.mill w setup = .ok w') {stop : Point ℝ}
    (ends : chain.stop = some stop) : w'.Over (setup.apply stop) := by
  obtain ⟨piles, -, h⟩ := Model.bind_eq_ok.mp h
  exact over_finish h ends

end MillChain

end Toolpath
