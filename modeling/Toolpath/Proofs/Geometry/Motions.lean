import Mathlib
import Toolpath.Proofs.Geometry.Slices

/-!
Rigid maps of the plane, in exact arithmetic. Points are complex numbers, the turn of a map is a
number of modulus one, and the map is a product with it and a sum. It keeps distances, and such maps
compose. The map between two pairs of anchors carries the first anchor to its place exactly, and the
second as closely as the pairs are of one length. Arcs are carried with their ends, which are not
further apart than the arc is long.
-/

set_option autoImplicit false

namespace Toolpath

namespace Point

def complex (p : Point ℝ) : ℂ := ⟨p.x, p.y⟩

private theorem distance_eq_dist (p q : Point ℝ) : p.distance q = dist p.complex q.complex := by
  rw [Complex.dist_eq_re_im]
  rfl

theorem distance_self (p : Point ℝ) : p.distance p = 0 := by
  rw [distance_eq_dist, dist_self]

theorem distance_comm (p q : Point ℝ) : p.distance q = q.distance p := by
  rw [distance_eq_dist, distance_eq_dist, dist_comm]

theorem hypot_vectorTo (p q : Point ℝ) :
    Scalar.hypot (p.vectorTo q).x (p.vectorTo q).y = p.distance q := by
  rw [distance_comm]
  rfl

theorem distance_triangle (p q r : Point ℝ) : p.distance r ≤ p.distance q + q.distance r := by
  rw [distance_eq_dist, distance_eq_dist, distance_eq_dist]
  exact dist_triangle _ _ _

theorem abs_x_sub_le (p q : Point ℝ) : |p.x - q.x| ≤ p.distance q := by
  rw [distance_eq_dist, Complex.dist_eq]
  exact Complex.abs_re_le_norm (p.complex - q.complex)

theorem abs_y_sub_le (p q : Point ℝ) : |p.y - q.y| ≤ p.distance q := by
  rw [distance_eq_dist, Complex.dist_eq]
  exact Complex.abs_im_le_norm (p.complex - q.complex)

theorem coincides_iff {p q : Point ℝ} : p.coincides q = true ↔ p.distance q ≤ positionTolerance :=
  decide_eq_true_iff

theorem coincides_self (p : Point ℝ) : p.coincides p = true := by
  rw [coincides_iff, distance_self]
  norm_num [positionTolerance]

private theorem complex_vectorTo (p q : Point ℝ) :
    (p.vectorTo q).complex = q.complex - p.complex := rfl

end Point

theorem positionTolerance_pos : (0 : ℝ) < positionTolerance := by
  norm_num [positionTolerance]

namespace Placement

def turn (t : Placement ℝ) : ℂ := ⟨t.cos, t.sin⟩

/-- A map that neither scales nor mirrors: its cosine and sine are those of an angle. -/
def Rigid (t : Placement ℝ) : Prop := t.cos ^ 2 + t.sin ^ 2 = 1

private theorem complex_apply (t : Placement ℝ) (p : Point ℝ) :
    (t.apply p).complex = t.turn * p.complex + t.offset.complex := by
  apply Complex.ext
  · simp [apply, turn, Point.complex]
  · simp [apply, turn, Point.complex]
    ring

private theorem norm_turn {t : Placement ℝ} (h : t.Rigid) : ‖t.turn‖ = 1 := by
  rw [Complex.norm_eq_sqrt_sq_add_sq]
  show √(t.cos ^ 2 + t.sin ^ 2) = 1
  rw [h, Real.sqrt_one]

theorem Rigid.distance_apply {t : Placement ℝ} (h : t.Rigid) (p q : Point ℝ) :
    (t.apply p).distance (t.apply q) = p.distance q := by
  have hsub : (t.apply p).complex - (t.apply q).complex = t.turn * (p.complex - q.complex) := by
    rw [complex_apply, complex_apply]
    ring
  rw [Point.distance_eq_dist, Point.distance_eq_dist, Complex.dist_eq, Complex.dist_eq, hsub,
    norm_mul, norm_turn h, one_mul]

theorem rigid_identity : (identity : Placement ℝ).Rigid := by
  norm_num [Rigid, identity]

theorem apply_identity (p : Point ℝ) : (identity : Placement ℝ).apply p = p := by
  cases p
  norm_num [identity, apply, Point.origin]

theorem apply_andThen (inner outer : Placement ℝ) (p : Point ℝ) :
    (inner.andThen outer).apply p = outer.apply (inner.apply p) := by
  simp only [andThen, apply, Point.mk.injEq]
  constructor <;> ring

theorem Rigid.andThen {inner outer : Placement ℝ} (hinner : inner.Rigid) (houter : outer.Rigid) :
    (inner.andThen outer).Rigid := by
  unfold Rigid at hinner houter ⊢
  have hproduct : (inner.andThen outer).cos ^ 2 + (inner.andThen outer).sin ^ 2 =
      (inner.cos ^ 2 + inner.sin ^ 2) * (outer.cos ^ 2 + outer.sin ^ 2) := by
    simp only [Placement.andThen]
    ring
  rw [hproduct, hinner, houter, one_mul]

theorem Rigid.cos_rotationDegrees {t : Placement ℝ} (h : t.Rigid) :
    Real.cos (Scalar.radians t.rotationDegrees) = t.cos ∧
      Real.sin (Scalar.radians t.rotationDegrees) = t.sin := by
  have hangle : Scalar.radians t.rotationDegrees = t.turn.arg := Angle.radians_degrees _
  have hcos := Complex.norm_mul_cos_arg t.turn
  have hsin := Complex.norm_mul_sin_arg t.turn
  rw [norm_turn h, one_mul] at hcos hsin
  rw [hangle, hcos, hsin]
  exact ⟨rfl, rfl⟩

section Anchors

private theorem dist_turned {a b : ℂ} (ha : a ≠ 0) :
    dist (Complex.exp ((starRingEnd ℂ a * b).arg * Complex.I) * a) b = |‖a‖ - ‖b‖| := by
  let turned := Complex.exp ((starRingEnd ℂ a * b).arg * Complex.I) * a
  have hpos : 0 < ‖a‖ := norm_pos_iff.mpr ha
  have hnorm : ‖turned‖ = ‖a‖ := by
    rw [norm_mul, Complex.norm_exp_ofReal_mul_I, one_mul]
  by_cases hb : b = 0
  · rw [hb, dist_zero_right]
    have hzero : ‖Complex.exp ((starRingEnd ℂ a * 0).arg * Complex.I) * a‖ = ‖a‖ := by
      rw [norm_mul, Complex.norm_exp_ofReal_mul_I, one_mul]
    rw [hzero, norm_zero, sub_zero, abs_of_pos hpos]
  · have hbpos : 0 < ‖b‖ := norm_pos_iff.mpr hb
    have hpolar := Complex.norm_mul_exp_arg_mul_I (starRingEnd ℂ a * b)
    rw [norm_mul, RCLike.norm_conj] at hpolar
    have hsquare : a * starRingEnd ℂ a = (‖a‖ : ℂ) ^ 2 := Complex.mul_conj' a
    -- Turned, the first direction is the second at its own length.
    have hscaled : (‖b‖ : ℂ) * turned = ‖a‖ * b := by
      have hane : (‖a‖ : ℂ) ≠ 0 := by exact_mod_cast ne_of_gt hpos
      apply mul_left_cancel₀ hane
      calc (‖a‖ : ℂ) * (‖b‖ * turned)
          = a * (((‖a‖ * ‖b‖ : ℝ) : ℂ) *
              Complex.exp ((starRingEnd ℂ a * b).arg * Complex.I)) := by
            push_cast
            ring
        _ = a * starRingEnd ℂ a * b := by rw [hpolar, mul_assoc]
        _ = ‖a‖ * (‖a‖ * b) := by rw [hsquare]; ring
    have hlength : ‖b‖ * dist turned b = ‖b‖ * |‖a‖ - ‖b‖| := by
      calc ‖b‖ * dist turned b = ‖(‖b‖ : ℂ) * (turned - b)‖ := by
            rw [norm_mul, Complex.dist_eq, Complex.norm_real, norm_norm]
        _ = ‖((‖a‖ - ‖b‖ : ℝ) : ℂ) * b‖ := by
            rw [mul_sub, hscaled]
            push_cast
            ring_nf
        _ = ‖b‖ * |‖a‖ - ‖b‖| := by
            rw [norm_mul, Complex.norm_real, Real.norm_eq_abs, mul_comm]
    exact mul_left_cancel₀ (ne_of_gt hbpos) hlength

variable {fromStart fromEnd toStart toEnd : Point ℝ} {t : Placement ℝ}

private theorem ofAnchors_eq_ok (h : ofAnchors fromStart fromEnd toStart toEnd = .ok t) :
    |fromStart.distance fromEnd - toStart.distance toEnd| ≤ positionTolerance ∧
    (∃ angle : ℝ, t.turn = Complex.exp (angle * Complex.I) ∧
      (angle = 0 ∧ fromStart.distance fromEnd ≤ positionTolerance ∨
        angle = (starRingEnd ℂ (fromStart.vectorTo fromEnd).complex *
          (toStart.vectorTo toEnd).complex).arg ∧
          positionTolerance < fromStart.distance fromEnd)) ∧
    t.apply fromStart = toStart := by
  have hzero : (0.0 : ℝ) = 0 := by norm_num
  unfold ofAnchors at h
  simp only [Point.hypot_vectorTo, RealScalar.abs_eq] at h
  split at h
  · cases h
  · next hclose =>
    obtain rfl := Except.ok.inj h
    refine ⟨not_lt.mp hclose, ?_, ?_⟩
    · have hexp (angle : ℝ) : (⟨Real.cos angle, Real.sin angle⟩ : ℂ) =
          Complex.exp (angle * Complex.I) := by
        apply Complex.ext
        · rw [Complex.exp_ofReal_mul_I_re]
        · rw [Complex.exp_ofReal_mul_I_im]
      refine ⟨_, hexp _, ?_⟩
      split
      · next hshort =>
        left
        exact ⟨hzero, hshort⟩
      · next hlong =>
        right
        refine ⟨?_, not_le.mp hlong⟩
        show Complex.arg _ = Complex.arg _
        congr 1
        apply Complex.ext
        · simp [Point.complex]
        · simp [Point.complex]
          ring
    · simp only [apply]
      cases toStart
      simp

private theorem rigid_of_turn {angle : ℝ} (h : t.turn = Complex.exp (angle * Complex.I)) :
    t.Rigid := by
  have hcos : t.cos = Real.cos angle := by
    rw [← Complex.exp_ofReal_mul_I_re, ← h]
    rfl
  have hsin : t.sin = Real.sin angle := by
    rw [← Complex.exp_ofReal_mul_I_im, ← h]
    rfl
  rw [Rigid, hcos, hsin]
  exact Real.cos_sq_add_sin_sq angle

/-- The map between two pairs of anchors is rigid and carries the first anchor exactly. The second
comes to lie within a tolerance of its place, or within three where the anchors coincide and
nothing tells how to turn. -/
theorem ofAnchors_spec (h : ofAnchors fromStart fromEnd toStart toEnd = .ok t) :
    t.Rigid ∧ t.apply fromStart = toStart ∧
      (t.apply fromEnd).distance toEnd ≤
        if fromStart.distance fromEnd ≤ positionTolerance then 3 * positionTolerance
        else positionTolerance := by
  obtain ⟨hclose, ⟨angle, hturn, hangle⟩, hstart⟩ := ofAnchors_eq_ok h
  have hrigid := rigid_of_turn hturn
  refine ⟨hrigid, hstart, ?_⟩
  rcases hangle with ⟨-, hshort⟩ | ⟨hdirection, hlong⟩
  · rw [if_pos hshort]
    have hdrawn : (t.apply fromEnd).distance toStart = fromStart.distance fromEnd := by
      rw [← hstart, hrigid.distance_apply, Point.distance_comm]
    have htriangle := Point.distance_triangle (t.apply fromEnd) toStart toEnd
    rw [abs_le] at hclose
    linarith [hclose.1]
  · rw [if_neg (not_le.mpr hlong)]
    let a := (fromStart.vectorTo fromEnd).complex
    let b := (toStart.vectorTo toEnd).complex
    have hnorm (p q : Point ℝ) : ‖(p.vectorTo q).complex‖ = p.distance q := by
      rw [Point.complex_vectorTo, Point.distance_eq_dist, dist_comm, Complex.dist_eq]
    have ha : a ≠ 0 := by
      rw [← norm_pos_iff, hnorm]
      exact lt_trans positionTolerance_pos hlong
    have hend : (t.apply fromEnd).complex - toEnd.complex = t.turn * a - b := by
      have hplace := congrArg Point.complex hstart
      rw [complex_apply] at hplace ⊢
      show _ = t.turn * (fromEnd.complex - fromStart.complex) - (toEnd.complex - toStart.complex)
      rw [← hplace]
      ring
    have hdist : (t.apply fromEnd).distance toEnd = |‖a‖ - ‖b‖| := by
      rw [Point.distance_eq_dist, Complex.dist_eq, hend, ← Complex.dist_eq, hturn, hdirection,
        dist_turned ha]
    rw [hdist, hnorm, hnorm]
    exact hclose

theorem ofAnchors_end (h : ofAnchors fromStart fromEnd toStart toEnd = .ok t) :
    (t.apply fromEnd).distance toEnd ≤ 3 * positionTolerance := by
  have hpos := positionTolerance_pos
  obtain ⟨-, -, hend⟩ := ofAnchors_spec h
  split at hend
  · exact hend
  · linarith

end Anchors

end Placement

namespace Arc

open Scalar (radians)

variable {t : Placement ℝ}

/-- The point at an angle of a circle is carried to the point at the turned angle. -/
theorem pointAtAngle_place (h : t.Rigid) (a : Arc ℝ) (degrees : ℝ) :
    (a.place t).pointAtAngle (Scalar.normalizeDegrees (degrees + t.rotationDegrees)) =
      t.apply (a.pointAtAngle degrees) := by
  obtain ⟨hcos, hsin⟩ := h.cos_rotationDegrees
  have hsum : radians (degrees + t.rotationDegrees) =
      radians degrees + radians t.rotationDegrees := by
    rw [Angle.radians_eq, Angle.radians_eq, Angle.radians_eq]
    ring
  rw [pointAtAngle_congr _ (Angle.normalizeDegrees_modEq _)]
  have hcosSum : Scalar.cos (radians (degrees + t.rotationDegrees)) =
      Real.cos (radians degrees) * t.cos - Real.sin (radians degrees) * t.sin := by
    show Real.cos (radians (degrees + t.rotationDegrees)) = _
    rw [hsum, Real.cos_add, hcos, hsin]
  have hsinSum : Scalar.sin (radians (degrees + t.rotationDegrees)) =
      Real.sin (radians degrees) * t.cos + Real.cos (radians degrees) * t.sin := by
    show Real.sin (radians (degrees + t.rotationDegrees)) = _
    rw [hsum, Real.sin_add, hcos, hsin]
  simp only [pointAtAngle, hcosSum, hsinSum, Placement.apply, place, between, Point.mk.injEq]
  constructor
  · show _ = t.cos * (a.center.x + a.radius * Real.cos (radians degrees)) -
      t.sin * (a.center.y + a.radius * Real.sin (radians degrees)) + t.offset.x
    ring
  · show _ = t.sin * (a.center.x + a.radius * Real.cos (radians degrees)) +
      t.cos * (a.center.y + a.radius * Real.sin (radians degrees)) + t.offset.y
    ring

private theorem start_place (h : t.Rigid) (a : Arc ℝ) : (a.place t).start = t.apply a.start :=
  pointAtAngle_place h a a.startAngle

theorem stop_place (h : t.Rigid) (a : Arc ℝ) : (a.place t).stop = t.apply a.stop :=
  pointAtAngle_place h a a.endAngle

private theorem complex_pointAtAngle (a : Arc ℝ) (degrees : ℝ) :
    (a.pointAtAngle degrees).complex =
      a.center.complex + a.radius * Complex.exp (radians degrees * Complex.I) := by
  apply Complex.ext
  · simp only [Complex.add_re, Complex.re_ofReal_mul, Complex.exp_ofReal_mul_I_re]
    rfl
  · simp only [Complex.add_im, Complex.im_ofReal_mul, Complex.exp_ofReal_mul_I_im]
    rfl

private theorem distance_pointAtAngle_le (a : Arc ℝ) (x y : ℝ) :
    (a.pointAtAngle x).distance (a.pointAtAngle y) ≤ |a.radius| * |radians (x - y)| := by
  have hsum : radians x = radians y + radians (x - y) := by
    rw [Angle.radians_eq, Angle.radians_eq, Angle.radians_eq]
    ring
  have hturned : Complex.exp (radians x * Complex.I) = Complex.exp (radians y * Complex.I) *
      Complex.exp (Complex.I * radians (x - y)) := by
    rw [hsum, ← Complex.exp_add]
    push_cast
    ring_nf
  have hsub : (a.pointAtAngle x).complex - (a.pointAtAngle y).complex =
      a.radius * (Complex.exp (radians y * Complex.I) *
        (Complex.exp (Complex.I * radians (x - y)) - 1)) := by
    rw [complex_pointAtAngle, complex_pointAtAngle, hturned]
    ring
  rw [Point.distance_eq_dist, Complex.dist_eq, hsub, norm_mul, norm_mul,
    Complex.norm_exp_ofReal_mul_I, one_mul, Complex.norm_real, Real.norm_eq_abs]
  exact mul_le_mul_of_nonneg_left Real.norm_exp_I_mul_ofReal_sub_one_le (abs_nonneg _)

private theorem turn_mem (a : Arc ℝ) : a.turn ∈ Set.Ico 0 360 := Angle.normalizeDegrees_mem _

theorem distance_start_stop_le (a : Arc ℝ) :
    a.start.distance a.stop ≤ |a.radius| * radians a.turn := by
  have hmod := Angle.normalizeDegrees_modEq
    (if a.ccw then a.endAngle - a.startAngle else a.startAngle - a.endAngle)
  have hnonneg : 0 ≤ radians a.turn := by
    rw [Angle.radians_eq]
    exact mul_nonneg a.turn_mem.1 (by positivity)
  have hchord (angle : ℝ) :
      (a.pointAtAngle angle).distance (a.pointAtAngle (angle + a.turn)) ≤
        |a.radius| * radians a.turn := by
    have hle := a.distance_pointAtAngle_le (angle + a.turn) angle
    rwa [add_sub_cancel_left, abs_of_nonneg hnonneg, Point.distance_comm] at hle
  -- An arc turns from its start, or the other way round from its stop.
  cases hccw : a.ccw with
  | true =>
    rw [hccw, if_pos rfl] at hmod
    have hstop : a.stop = a.pointAtAngle (a.startAngle + a.turn) := by
      apply pointAtAngle_congr
      have hend := (hmod.add_left a.startAngle).symm
      rw [turn, hccw, if_pos rfl]
      rwa [add_sub_cancel] at hend
    rw [hstop]
    exact hchord a.startAngle
  | false =>
    rw [hccw] at hmod
    have hstart : a.start = a.pointAtAngle (a.endAngle + a.turn) := by
      apply pointAtAngle_congr
      have hend := (hmod.add_left a.endAngle).symm
      rw [turn, hccw]
      simpa using hend
    rw [hstart, Point.distance_comm]
    exact hchord a.endAngle

theorem sweepDegrees_eq_iff (a : Arc ℝ) : a.sweepDegrees = 360 ↔ a.turn ≤ spanTolerance := by
  have hlt := a.turn_mem.2
  rw [sweepDegrees_eq]
  split
  · next hshort => exact ⟨fun _ => hshort, fun _ => rfl⟩
  · next hlong => exact ⟨fun hfull => absurd hfull hlt.ne, fun hshort => absurd hshort hlong⟩

theorem start_coincides_stop {a : Arc ℝ} (small : |a.radius| ≤ 1e7)
    (full : a.sweepDegrees = 360) : a.start.coincides a.stop = true := by
  rw [Point.coincides_iff]
  have hturn := (sweepDegrees_eq_iff a).mp full
  refine le_trans a.distance_start_stop_le ?_
  have hpi := Real.pi_le_four
  have hpos := Real.pi_pos
  calc |a.radius| * radians a.turn ≤ 1e7 * (spanTolerance * (4 / 180)) := by
        rw [Angle.radians_eq]
        have hnonneg : 0 ≤ a.turn := a.turn_mem.1
        have htolerance : (0 : ℝ) < spanTolerance := spanTolerance_pos
        gcongr
    _ ≤ positionTolerance := by norm_num [spanTolerance, positionTolerance]

@[simp] theorem sweepDegrees_reversed (a : Arc ℝ) : a.reversed.sweepDegrees = a.sweepDegrees := by
  rw [sweepDegrees, sweepDegrees, reversed]
  cases a.ccw with
  | false => rfl
  | true => rfl

end Arc

namespace Shape

variable {t : Placement ℝ}

theorem start_place (h : t.Rigid) (s : Shape ℝ) : (s.place t).start = t.apply s.start := by
  cases s with
  | line l => rfl
  | arc a => exact Arc.start_place h a

theorem stop_place (h : t.Rigid) (s : Shape ℝ) : (s.place t).stop = t.apply s.stop := by
  cases s with
  | line l => rfl
  | arc a => exact Arc.stop_place h a

end Shape

end Toolpath
