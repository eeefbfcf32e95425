import Toolpath.Proofs.Geometry.Angles
import Toolpath.Geometry.Shape

/-!
Parts of a line or an arc, in exact arithmetic. The part between two distances runs along the shape
from the one to the other. It is as long as they are apart, unless it is a part of an arc and so
short that its two angles count as the same direction: then it is a full circle.
-/

set_option autoImplicit false

namespace Toolpath

open Scalar (normalizeDegrees radians degrees)

namespace Point

private theorem lerp_zero (p q : Point ℝ) : p.lerp q 0 = p := by
  simp [lerp]

private theorem lerp_one (p q : Point ℝ) : p.lerp q 1 = q := by
  simp [lerp]

private theorem lerp_lerp (p q : Point ℝ) (s t u : ℝ) :
    (p.lerp q s).lerp (p.lerp q t) u = p.lerp q (s + (t - s) * u) := by
  simp only [lerp, mk.injEq]
  constructor <;> ring

private theorem distance_lerp (p q : Point ℝ) {s t : ℝ} (h : s ≤ t) :
    (p.lerp q s).distance (p.lerp q t) = (t - s) * p.distance q := by
  change √((p.x + (q.x - p.x) * s - (p.x + (q.x - p.x) * t)) ^ 2 +
    (p.y + (q.y - p.y) * s - (p.y + (q.y - p.y) * t)) ^ 2) =
      (t - s) * √((p.x - q.x) ^ 2 + (p.y - q.y) ^ 2)
  have hscale : (p.x + (q.x - p.x) * s - (p.x + (q.x - p.x) * t)) ^ 2 +
      (p.y + (q.y - p.y) * s - (p.y + (q.y - p.y) * t)) ^ 2 =
        (t - s) ^ 2 * ((p.x - q.x) ^ 2 + (p.y - q.y) ^ 2) := by
    ring
  rw [hscale, Real.sqrt_mul (sq_nonneg _), Real.sqrt_sq (sub_nonneg.mpr h)]

end Point

namespace Line

noncomputable def along (l : Line ℝ) (d : ℝ) : Point ℝ := l.start.lerp l.stop (d / l.length)

variable {l : Line ℝ}

private theorem length_pos (h : negligible < l.length) : 0 < l.length := by
  refine lt_trans ?_ h
  norm_num [negligible]

private theorem pointAt_eq (h : negligible < l.length) (d : ℝ) : l.pointAt d = l.along d :=
  if_neg (not_le.mpr h)

private theorem along_length (h : negligible < l.length) : l.along l.length = l.stop := by
  rw [along, div_self (length_pos h).ne', Point.lerp_one]

private theorem length_slice (h : negligible < l.length) {low high : ℝ} (hle : low ≤ high) :
    (l.slice low high).length = high - low := by
  have hpos := length_pos h
  have hlength : (l.slice low high).length = (l.along low).distance (l.along high) := by
    rw [← pointAt_eq h, ← pointAt_eq h]
    rfl
  rw [hlength, along, along, Point.distance_lerp _ _ (div_le_div_of_nonneg_right hle hpos.le)]
  change (high / l.length - low / l.length) * l.length = high - low
  field_simp

private theorem along_slice (h : negligible < l.length) {low high d : ℝ} (hd : 0 ≤ d)
    (hhigh : d ≤ high - low) : (l.slice low high).along d = l.along (low + d) := by
  have hlength := length_slice h (sub_nonneg.mp (hd.trans hhigh))
  have hpos := length_pos h
  rw [along, hlength]
  change (l.pointAt low).lerp (l.pointAt high) (d / (high - low)) = l.along (low + d)
  rw [pointAt_eq h, pointAt_eq h, along, along, Point.lerp_lerp, along]
  congr 1
  rcases (hd.trans hhigh).eq_or_lt with hempty | hlong
  · obtain rfl : d = 0 := le_antisymm (hempty ▸ hhigh) hd
    simp
  · field_simp

end Line

namespace Arc

/-- The angle at a distance along the arc, counted on over full turns. -/
noncomputable def heading (a : Arc ℝ) (d : ℝ) : ℝ :=
  if a.ccw then a.startAngle + degrees (d / a.radius) else a.startAngle - degrees (d / a.radius)

noncomputable def along (a : Arc ℝ) (d : ℝ) : Point ℝ := a.pointAtAngle (a.heading d)

noncomputable def turn (a : Arc ℝ) : ℝ :=
  normalizeDegrees (if a.ccw then a.endAngle - a.startAngle else a.startAngle - a.endAngle)

noncomputable def circumference (a : Arc ℝ) : ℝ := a.radius * radians 360

theorem spanTolerance_pos : (0 : ℝ) < spanTolerance := by
  norm_num [spanTolerance]

theorem radius_pos {a : Arc ℝ} (h : negligible < a.radius) : 0 < a.radius := by
  refine lt_trans ?_ h
  norm_num [negligible]

theorem sweepDegrees_eq (a : Arc ℝ) :
    a.sweepDegrees = if a.turn ≤ spanTolerance then 360 else a.turn := by
  have hturn : (360.0 : ℝ) = 360 := by norm_num
  rw [← hturn]
  rfl

private theorem sweepDegrees_le (a : Arc ℝ) : a.sweepDegrees ≤ 360 := by
  rw [sweepDegrees_eq]
  split
  · exact le_refl _
  · exact (Angle.normalizeDegrees_mem _).2.le

private theorem length_le_circumference {a : Arc ℝ} (h : negligible < a.radius) :
    a.length ≤ a.circumference := by
  have hpi := Real.pi_pos
  refine mul_le_mul_of_nonneg_left ?_ (radius_pos h).le
  rw [Angle.radians_eq, Angle.radians_eq]
  exact mul_le_mul_of_nonneg_right a.sweepDegrees_le (by positivity)

theorem pointAtAngle_congr (a : Arc ℝ) {x y : ℝ} (h : x ≡ y [PMOD 360]) :
    a.pointAtAngle x = a.pointAtAngle y := by
  have hcos : Scalar.cos (radians x) = Scalar.cos (radians y) := Angle.cos_radians h
  have hsin : Scalar.sin (radians x) = Scalar.sin (radians y) := Angle.sin_radians h
  simp only [pointAtAngle, hcos, hsin]

private theorem angleAt_eq {a : Arc ℝ} (h : negligible < a.radius) (d : ℝ) :
    a.angleAt d = normalizeDegrees (a.heading d) :=
  if_neg (not_le.mpr h)

private theorem angleAt_modEq {a : Arc ℝ} (h : negligible < a.radius) (d : ℝ) :
    normalizeDegrees (a.angleAt d) ≡ a.heading d [PMOD 360] := by
  rw [angleAt_eq h]
  exact (Angle.normalizeDegrees_modEq _).trans (Angle.normalizeDegrees_modEq _)

private theorem degrees_add (a : Arc ℝ) (c d : ℝ) :
    degrees ((c + d) / a.radius) = degrees (c / a.radius) + degrees (d / a.radius) := by
  simp only [Angle.degrees_eq]
  ring

private theorem sweepDegrees_modEq {a : Arc ℝ} (h : a.turn = 0 ∨ spanTolerance < a.turn) :
    a.sweepDegrees ≡ a.turn [PMOD 360] := by
  rw [sweepDegrees_eq]
  rcases h with hzero | hlong
  · rw [hzero, if_pos spanTolerance_pos.le]
    exact AddCommGroup.self_modEq_zero
  · rw [if_neg (not_le.mpr hlong)]

private theorem heading_length {a : Arc ℝ} (hradius : negligible < a.radius)
    (h : a.turn = 0 ∨ spanTolerance < a.turn) : a.heading a.length ≡ a.endAngle [PMOD 360] := by
  have hdegrees : degrees (a.length / a.radius) = a.sweepDegrees := by
    rw [length, mul_div_cancel_left₀ _ (radius_pos hradius).ne', Angle.degrees_radians]
  have hsweep := (sweepDegrees_modEq h).trans (Angle.normalizeDegrees_modEq _)
  rw [heading, hdegrees]
  split at hsweep
  · next hccw =>
    rw [if_pos hccw]
    have hend := hsweep.add_left a.startAngle
    rwa [add_sub_cancel] at hend
  · next hccw =>
    rw [if_neg hccw]
    have hend := hsweep.sub_left a.startAngle
    rwa [sub_sub_cancel] at hend

section Slice

variable {a : Arc ℝ} (hradius : negligible < a.radius)

include hradius

private theorem start_slice (low high : ℝ) : (a.slice low high).start = a.along low :=
  pointAtAngle_congr _ (angleAt_modEq hradius low)

private theorem stop_slice (low high : ℝ) : (a.slice low high).stop = a.along high :=
  pointAtAngle_congr _ (angleAt_modEq hradius high)

private theorem heading_slice (low high d : ℝ) :
    (a.slice low high).heading d ≡ a.heading (low + d) [PMOD 360] := by
  have hstart := angleAt_modEq hradius low
  change (if a.ccw then normalizeDegrees (a.angleAt low) + degrees (d / a.radius)
    else normalizeDegrees (a.angleAt low) - degrees (d / a.radius)) ≡ _ [PMOD 360]
  rw [heading] at hstart ⊢
  rw [degrees_add]
  split at hstart
  · next hccw =>
    rw [if_pos hccw, if_pos hccw, ← add_assoc]
    exact hstart.add_right _
  · next hccw =>
    rw [if_neg hccw, if_neg hccw, ← sub_sub]
    exact hstart.sub_right _

private theorem along_slice (low high d : ℝ) : (a.slice low high).along d = a.along (low + d) :=
  pointAtAngle_congr _ (heading_slice hradius low high d)

private theorem turn_slice (low high : ℝ) :
    (a.slice low high).turn = normalizeDegrees (degrees ((high - low) / a.radius)) := by
  have hlow := angleAt_modEq hradius low
  have hhigh := angleAt_modEq hradius high
  have hturned : degrees (high / a.radius) =
      degrees (low / a.radius) + degrees ((high - low) / a.radius) := by
    rw [← degrees_add, add_sub_cancel]
  refine Angle.normalizeDegrees_inj.mpr ?_
  change (if a.ccw then normalizeDegrees (a.angleAt high) - normalizeDegrees (a.angleAt low)
    else normalizeDegrees (a.angleAt low) - normalizeDegrees (a.angleAt high)) ≡ _ [PMOD 360]
  rw [heading] at hlow hhigh
  split
  · next hccw =>
    rw [if_pos hccw] at hlow hhigh
    have hdiff := hhigh.sub hlow
    rwa [hturned, ← add_assoc, add_sub_cancel_left] at hdiff
  · next hccw =>
    rw [if_neg hccw] at hlow hhigh
    have hdiff := hlow.sub hhigh
    rwa [hturned, ← sub_sub, sub_sub_cancel] at hdiff

private theorem length_slice {low high : ℝ} (hle : high - low ≤ a.circumference)
    (hlong : a.radius * radians spanTolerance < high - low) :
    (a.slice low high).length = high - low := by
  have hpos := radius_pos hradius
  have hpi := Real.pi_pos
  have hspan : a.radius * radians (degrees ((high - low) / a.radius)) = high - low := by
    rw [Angle.radians_degrees, mul_div_cancel₀ _ hpos.ne']
  have hmono {x y : ℝ} (h : a.radius * radians x ≤ a.radius * radians y) : x ≤ y := by
    rw [Angle.radians_eq, Angle.radians_eq] at h
    exact le_of_mul_le_mul_right (le_of_mul_le_mul_left h hpos) (by positivity)
  have hmost : degrees ((high - low) / a.radius) ≤ 360 := hmono (hspan.trans_le hle)
  have hleast : spanTolerance < degrees ((high - low) / a.radius) := by
    refine lt_of_not_ge fun hshort => absurd hlong (not_lt.mpr ?_)
    rw [← hspan, Angle.radians_eq, Angle.radians_eq]
    gcongr
  have hsweep : (a.slice low high).sweepDegrees = degrees ((high - low) / a.radius) := by
    rw [sweepDegrees_eq, turn_slice hradius]
    rcases hmost.eq_or_lt with hfull | hpart
    · rw [hfull, Angle.normalizeDegrees_turn, if_pos spanTolerance_pos.le]
    · rw [Angle.normalizeDegrees_of_lt (spanTolerance_pos.trans hleast).le hpart,
        if_neg (not_le.mpr hleast)]
  change a.radius * radians (a.slice low high).sweepDegrees = high - low
  rw [hsweep, hspan]

/-- A part that turns by no more than the tolerance, an empty one too, is a full circle. -/
theorem length_slice_of_short {low high : ℝ} (hle : low ≤ high)
    (hshort : high - low ≤ a.radius * radians spanTolerance) :
    (a.slice low high).length = a.circumference := by
  have hpos := radius_pos hradius
  have hpi := Real.pi_pos
  have hspan : degrees ((high - low) / a.radius) ≤ spanTolerance := by
    have hdiv := (div_le_iff₀' hpos).mpr hshort
    rw [← Angle.degrees_radians spanTolerance, Angle.degrees_eq, Angle.degrees_eq]
    exact mul_le_mul_of_nonneg_right hdiv (by positivity)
  have hnonneg : 0 ≤ degrees ((high - low) / a.radius) := by
    rw [Angle.degrees_eq]
    have hdiff := sub_nonneg.mpr hle
    positivity
  have hlt : (spanTolerance : ℝ) < 360 := by norm_num [spanTolerance]
  have hsweep : (a.slice low high).sweepDegrees = 360 := by
    rw [sweepDegrees_eq, turn_slice hradius,
      Angle.normalizeDegrees_of_lt hnonneg (hspan.trans_lt hlt), if_pos hspan]
  change a.radius * radians (a.slice low high).sweepDegrees = a.radius * radians 360
  rw [hsweep]

end Slice

end Arc

namespace Shape

noncomputable def along : Shape ℝ → ℝ → Point ℝ
  | line l, d => l.along d
  | arc a, d => a.along d

/-- A shape that is no point, and no arc that is taken for a circle though it is none. -/
def Regular : Shape ℝ → Prop
  | line l => negligible < l.length
  | arc a => negligible < a.radius ∧ (a.turn = 0 ∨ Arc.spanTolerance < a.turn)

/-- A part of this length is not taken for a circle. -/
def Resolves : Shape ℝ → ℝ → Prop
  | line _, _ => True
  | arc a, d => a.radius * radians Arc.spanTolerance < d

section Slice

variable {shape : Shape ℝ} (h : shape.Regular)

include h

theorem start_slice (low high : ℝ) : (shape.slice low high).start = shape.along low := by
  cases shape with
  | line l => exact Line.pointAt_eq h low
  | arc a => exact Arc.start_slice h.1 low high

theorem stop_slice (low high : ℝ) : (shape.slice low high).stop = shape.along high := by
  cases shape with
  | line l => exact Line.pointAt_eq h high
  | arc a => exact Arc.stop_slice h.1 low high

theorem along_slice {low high d : ℝ} (hd : 0 ≤ d) (hhigh : d ≤ high - low) :
    (shape.slice low high).along d = shape.along (low + d) := by
  cases shape with
  | line l => exact Line.along_slice h hd hhigh
  | arc a => exact Arc.along_slice h.1 low high d

theorem length_slice {low high : ℝ} (hle : low ≤ high) (hlength : high - low ≤ shape.length)
    (hresolves : shape.Resolves (high - low)) : (shape.slice low high).length = high - low := by
  cases shape with
  | line l => exact Line.length_slice h hle
  | arc a =>
    exact Arc.length_slice h.1 (hlength.trans (Arc.length_le_circumference h.1)) hresolves

theorem along_length : shape.along shape.length = shape.stop := by
  cases shape with
  | line l => exact Line.along_length h
  | arc a => exact Arc.pointAtAngle_congr a (Arc.heading_length h.1 h.2)

end Slice

theorem along_zero (shape : Shape ℝ) : shape.along 0 = shape.start := by
  cases shape with
  | line l => rw [along, Line.along, zero_div, Point.lerp_zero, start]
  | arc a =>
    have hzero : degrees (0 / a.radius) = 0 := by rw [zero_div, Angle.degrees_eq, zero_mul]
    rw [along, Arc.along, Arc.heading, hzero, add_zero, sub_zero, ite_self]
    rfl

end Shape

end Toolpath
