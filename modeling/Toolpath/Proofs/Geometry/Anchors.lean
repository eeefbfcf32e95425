import Toolpath.Proofs.Geometry.Motions

/-!
The map between two pairs of anchors, in exact arithmetic. There is one if and only if the pairs are
equally far apart, up to the tolerance. It moves the plane as a whole, so lengths and the sense of
turning are kept; it carries the first anchor to its place, and the second as closely as the
distances agree.
-/

set_option autoImplicit false

namespace Toolpath

/-- Twice the area of a triangle, above zero if its corners are passed counterclockwise. -/
def Point.doubleArea (p q r : Point ℝ) : ℝ :=
  (q.x - p.x) * (r.y - p.y) - (q.y - p.y) * (r.x - p.x)

namespace Placement

variable {t : Placement ℝ}

private theorem Rigid.doubleArea_apply (h : t.Rigid) (p q r : Point ℝ) :
    (t.apply p).doubleArea (t.apply q) (t.apply r) = p.doubleArea q r := by
  have hscale : (t.apply p).doubleArea (t.apply q) (t.apply r) =
      (t.cos ^ 2 + t.sin ^ 2) * p.doubleArea q r := by
    simp only [Point.doubleArea, apply]
    ring
  rw [hscale, h, one_mul]

variable (fromStart fromEnd toStart toEnd : Point ℝ)

private theorem ofAnchors_eq_error_iff :
    (∃ e, ofAnchors fromStart fromEnd toStart toEnd = .error e) ↔
      positionTolerance < |fromStart.distance fromEnd - toStart.distance toEnd| := by
  unfold ofAnchors
  simp only [Point.hypot_vectorTo, RealScalar.abs_eq]
  split
  · next hfar => simp [hfar]
  · next hnear => simp [hnear]

/-- The map between anchors fails exactly if their distances differ by more than the tolerance. Else
it keeps distances and does not mirror, carries the first anchor exactly to its place, and the
second one to within a tolerance of it, or three if the anchors are too close to each other to tell
a direction. -/
theorem ofAnchors_carries :
    ((∃ e, ofAnchors fromStart fromEnd toStart toEnd = .error e) ↔
      positionTolerance < |fromStart.distance fromEnd - toStart.distance toEnd|) ∧
    ∀ t, ofAnchors fromStart fromEnd toStart toEnd = .ok t →
      (∀ p q, (t.apply p).distance (t.apply q) = p.distance q) ∧
      (∀ p q r, (t.apply p).doubleArea (t.apply q) (t.apply r) = p.doubleArea q r) ∧
      t.apply fromStart = toStart ∧
      (positionTolerance < fromStart.distance fromEnd →
        (t.apply fromEnd).distance toEnd ≤ positionTolerance) ∧
      (fromStart.distance fromEnd ≤ positionTolerance →
        (t.apply fromEnd).distance toEnd ≤ 3 * positionTolerance) := by
  refine ⟨ofAnchors_eq_error_iff fromStart fromEnd toStart toEnd, fun t ht => ?_⟩
  obtain ⟨hrigid, hstart, hend⟩ := ofAnchors_spec ht
  refine ⟨hrigid.distance_apply, hrigid.doubleArea_apply, hstart, fun hfar => ?_, fun hnear => ?_⟩
  · rwa [if_neg (not_le.mpr hfar)] at hend
  · rwa [if_pos hnear] at hend

/-- Anchors that are drawn ten millimetres apart, and placed half a tolerance more. -/
theorem ofAnchors_carries_quarter :
    ∃ t, ofAnchors ⟨0, 0⟩ ⟨10, 0⟩ ⟨1, 2⟩ ⟨1, 12.0005⟩ = .ok t ∧
      (∀ p q, (t.apply p).distance (t.apply q) = p.distance q) ∧
      t.apply ⟨0, 0⟩ = (⟨1, 2⟩ : Point ℝ) ∧
      (t.apply ⟨10, 0⟩).distance ⟨1, 12.0005⟩ ≤ positionTolerance := by
  have hdrawn : (⟨0, 0⟩ : Point ℝ).distance ⟨10, 0⟩ = 10 := by
    change √((0 - 10) ^ 2 + (0 - 0) ^ 2) = (10 : ℝ)
    rw [Real.sqrt_eq_iff_mul_self_eq] <;> norm_num
  have hplaced : (⟨1, 2⟩ : Point ℝ).distance ⟨1, 12.0005⟩ = 10.0005 := by
    change √((1 - 1) ^ 2 + (2 - 12.0005) ^ 2) = (10.0005 : ℝ)
    rw [Real.sqrt_eq_iff_mul_self_eq] <;> norm_num
  obtain ⟨hfails, hcarries⟩ := ofAnchors_carries ⟨0, 0⟩ ⟨10, 0⟩ ⟨1, 2⟩ ⟨1, 12.0005⟩
  rw [hdrawn, hplaced] at hfails
  cases hmap : ofAnchors (⟨0, 0⟩ : Point ℝ) ⟨10, 0⟩ ⟨1, 2⟩ ⟨1, 12.0005⟩ with
  | error e =>
    have hfar := hfails.mp ⟨e, hmap⟩
    norm_num [positionTolerance] at hfar
  | ok t =>
    obtain ⟨hdistance, -, hstart, hend, -⟩ := hcarries t hmap
    refine ⟨t, rfl, hdistance, hstart, hend ?_⟩
    rw [hdrawn]
    norm_num [positionTolerance]

end Placement

end Toolpath
