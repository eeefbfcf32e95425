import Toolpath.Proofs.Geometry.Motions

/-!
Shapes under rigid maps, in exact arithmetic. A line is carried by its ends, an arc by its center
and its two angles, which are turned and brought back into the range of angles. Either way the
placed shape is the image of the shape: it passes the image of every point at the same distance from
its start, so it keeps its length and its direction; and it does not matter whether a shape is
reversed before it is placed or after.
-/

set_option autoImplicit false

namespace Toolpath

open Scalar (normalizeDegrees degrees)

namespace Placement

/-- The maps that can be put together: no movement at all, a turn with a shift, the map between two
pairs of anchors, and one map after another. -/
inductive Motion : Placement ℝ → Prop
  | identity : Motion identity
  | rotation (degrees : ℝ) (offset : Point ℝ) : Motion (rotation degrees offset)
  | ofAnchors {fromStart fromEnd toStart toEnd : Point ℝ} {t : Placement ℝ} :
      ofAnchors fromStart fromEnd toStart toEnd = .ok t → Motion t
  | andThen {inner outer : Placement ℝ} : Motion inner → Motion outer → Motion (inner.andThen outer)

variable {t : Placement ℝ}

private theorem rigid_rotation (degrees : ℝ) (offset : Point ℝ) : (rotation degrees offset).Rigid :=
  Real.cos_sq_add_sin_sq _

private theorem Rigid.eq_rotation (h : t.Rigid) : t = rotation t.rotationDegrees t.offset := by
  obtain ⟨hcos, hsin⟩ := h.cos_rotationDegrees
  cases t
  simp only [rotation, mk.injEq]
  exact ⟨hcos.symm, hsin.symm, trivial⟩

private theorem Motion.rigid (h : t.Motion) : t.Rigid := by
  induction h with
  | identity => exact rigid_identity
  | rotation degrees offset => exact rigid_rotation degrees offset
  | ofAnchors hmap => exact (ofAnchors_spec hmap).1
  | andThen _ _ hinner houter => exact hinner.andThen houter

/-- Nothing but the rigid maps can be put together, and all of them. -/
theorem motion_iff_rigid : t.Motion ↔ t.Rigid :=
  ⟨Motion.rigid, fun h => h.eq_rotation ▸ .rotation _ _⟩

private theorem apply_lerp (t : Placement ℝ) (p q : Point ℝ) (u : ℝ) :
    t.apply (p.lerp q u) = (t.apply p).lerp (t.apply q) u := by
  simp only [apply, Point.lerp, Point.mk.injEq]
  constructor <;> ring

end Placement

variable {t : Placement ℝ}

namespace Line

private theorem length_place (h : t.Rigid) (l : Line ℝ) : (l.place t).length = l.length :=
  h.distance_apply l.start l.stop

private theorem along_place (h : t.Rigid) (l : Line ℝ) (d : ℝ) :
    (l.place t).along d = t.apply (l.along d) := by
  rw [along, along, length_place h, Placement.apply_lerp]
  rfl

end Line

namespace Arc

private theorem turn_place (a : Arc ℝ) (t : Placement ℝ) : (a.place t).turn = a.turn := by
  have hstart := Angle.normalizeDegrees_modEq (a.startAngle + t.rotationDegrees)
  have hend := Angle.normalizeDegrees_modEq (a.endAngle + t.rotationDegrees)
  refine Angle.normalizeDegrees_inj.mpr ?_
  change (if a.ccw then normalizeDegrees (a.endAngle + t.rotationDegrees) -
      normalizeDegrees (a.startAngle + t.rotationDegrees)
    else normalizeDegrees (a.startAngle + t.rotationDegrees) -
      normalizeDegrees (a.endAngle + t.rotationDegrees)) ≡ _ [PMOD 360]
  split
  · have hdiff := hend.sub hstart
    rwa [add_sub_add_right_eq_sub] at hdiff
  · have hdiff := hstart.sub hend
    rwa [add_sub_add_right_eq_sub] at hdiff

private theorem length_place (a : Arc ℝ) (t : Placement ℝ) : (a.place t).length = a.length := by
  rw [length, length, sweepDegrees_eq, sweepDegrees_eq, turn_place]
  rfl

private theorem heading_place (a : Arc ℝ) (t : Placement ℝ) (d : ℝ) :
    (a.place t).heading d ≡ a.heading d + t.rotationDegrees [PMOD 360] := by
  have hstart := Angle.normalizeDegrees_modEq (a.startAngle + t.rotationDegrees)
  change (if a.ccw then normalizeDegrees (a.startAngle + t.rotationDegrees) + degrees (d / a.radius)
      else normalizeDegrees (a.startAngle + t.rotationDegrees) - degrees (d / a.radius))
    ≡ _ [PMOD 360]
  rw [heading]
  split
  · rw [add_right_comm]
    exact hstart.add_right _
  · rw [sub_add_eq_add_sub]
    exact hstart.sub_right _

private theorem along_place (h : t.Rigid) (a : Arc ℝ) (d : ℝ) :
    (a.place t).along d = t.apply (a.along d) := by
  have hheading := (heading_place a t d).trans (Angle.normalizeDegrees_modEq _).symm
  rw [along, pointAtAngle_congr _ hheading, pointAtAngle_place h]
  rfl

end Arc

namespace Shape

def ccw? : Shape ℝ → Option Bool
  | line _ => none
  | arc a => some a.ccw

private theorem length_place (h : t.Rigid) (s : Shape ℝ) : (s.place t).length = s.length := by
  cases s with
  | line l => exact Line.length_place h l
  | arc a => exact Arc.length_place a t

private theorem ccw?_place (s : Shape ℝ) (t : Placement ℝ) : (s.place t).ccw? = s.ccw? := by
  cases s <;> rfl

private theorem along_place (h : t.Rigid) (s : Shape ℝ) (d : ℝ) :
    (s.place t).along d = t.apply (s.along d) := by
  cases s with
  | line l => exact Line.along_place h l d
  | arc a => exact Arc.along_place h a d

private theorem place_reversed (s : Shape ℝ) (t : Placement ℝ) :
    s.reversed.place t = (s.place t).reversed := by
  cases s <;> rfl

/-- To place a shape and to read it can be done in either order, for every map that is made of the
identity, turns with shifts and maps between anchors: the ends, the length, the direction and every
point on the way of the placed shape are those of the shape, carried by the map, and the placed
shape reversed is the reversed shape placed. -/
theorem place_commutes (h : t.Motion) (s : Shape ℝ) :
    (s.place t).start = t.apply s.start ∧
    (s.place t).stop = t.apply s.stop ∧
    (s.place t).length = s.length ∧
    (s.place t).ccw? = s.ccw? ∧
    (∀ d, (s.place t).along d = t.apply (s.along d)) ∧
    s.reversed.place t = (s.place t).reversed :=
  ⟨start_place h.rigid s, stop_place h.rigid s, length_place h.rigid s, ccw?_place s t,
    along_place h.rigid s, place_reversed s t⟩

noncomputable def backOverZero : Arc ℝ := ⟨⟨5.0, 5.0⟩, 9.0, 10.0, 350.0, false⟩

private theorem length_backOverZero : backOverZero.length = Real.pi := by
  have hback : (10.0 - 350.0 : ℝ) ≡ 20 [PMOD 360] :=
    AddCommGroup.modEq_iff_eq_add_zsmul.mpr ⟨1, by norm_num⟩
  have hturn : backOverZero.turn = 20 := by
    change normalizeDegrees (10.0 - 350.0 : ℝ) = 20
    rw [Angle.normalizeDegrees_inj.mpr hback,
      Angle.normalizeDegrees_of_lt (by norm_num) (by norm_num)]
  have hlong : ¬ (20 : ℝ) ≤ Arc.spanTolerance := by norm_num [Arc.spanTolerance]
  rw [Arc.length, Arc.sweepDegrees_eq, hturn, if_neg hlong, Angle.radians_eq]
  change 9.0 * (20 * (Real.pi / 180)) = Real.pi
  linarith

theorem place_commutes_backOverZero :
    let t : Placement ℝ := (Placement.rotation 90 ⟨1, 2⟩).andThen (.rotation 300 ⟨-3, 0⟩)
    let s := Shape.arc backOverZero
    t.Motion ∧ (s.place t).start = t.apply s.start ∧ (s.place t).stop = t.apply s.stop ∧
      (s.place t).length = Real.pi ∧ (s.place t).ccw? = some false ∧
      s.reversed.place t = (s.place t).reversed := by
  intro t s
  have hmotion : t.Motion := .andThen (.rotation 90 _) (.rotation 300 _)
  obtain ⟨hstart, hstop, hlength, hccw, -, hreversed⟩ := place_commutes hmotion s
  exact ⟨hmotion, hstart, hstop, hlength.trans length_backOverZero, hccw, hreversed⟩

end Shape

end Toolpath
