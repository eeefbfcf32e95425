import Mathlib.Algebra.Order.ToIntervalMod
import Mathlib.Analysis.SpecialFunctions.Trigonometric.Basic
import Mathlib.Tactic.FieldSimp
import Toolpath.Geometry.Arc
import Toolpath.Proofs.Scalar.Real

/-!
Directions as angles in degrees, in exact arithmetic. Angles that differ by full turns are one
direction; a direction has one angle from 0 up to 360 degrees, and one point on a circle.
-/

set_option autoImplicit false

namespace Toolpath

open Scalar (normalizeDegrees radians degrees)

namespace Angle

private theorem turn_pos : (0 : ℝ) < 360 := by norm_num

private theorem remainder_eq (x : ℝ) :
    Scalar.remainder x 360.0 = x - 360 * (if 0 ≤ x / 360 then ⌊x / 360⌋ else ⌈x / 360⌉ : ℤ) := by
  have hturn : (360.0 : ℝ) = 360 := by norm_num
  change x - 360.0 * ((if 0 ≤ x / 360.0 then ⌊x / 360.0⌋ else ⌈x / 360.0⌉ : ℤ) : ℝ) = _
  rw [hturn]

private theorem modulo_spec (x : ℝ) : 0 ≤ Scalar.modulo x 360.0 ∧ Scalar.modulo x 360.0 < 360 ∧
    ∃ turns : ℤ, x = Scalar.modulo x 360.0 + turns • (360 : ℝ) := by
  have hzero : (0.0 : ℝ) = 0 := by norm_num
  have habs : Scalar.abs (360.0 : ℝ) = 360 := by
    rw [RealScalar.abs_eq]
    norm_num
  have hquotient : 360 * (x / 360) = x := by ring
  unfold Scalar.modulo
  simp only [remainder_eq, habs, hzero]
  split
  · next hpos =>
    have hfloor := Int.floor_le (x / 360)
    have hlt := Int.lt_floor_add_one (x / 360)
    have hnot : ¬ x - 360 * (⌊x / 360⌋ : ℝ) < 0 := by linarith
    rw [if_neg hnot]
    refine ⟨by linarith, by linarith, ⌊x / 360⌋, ?_⟩
    rw [zsmul_eq_mul]
    ring
  · have hceil := Int.le_ceil (x / 360)
    have hlt := Int.ceil_lt_add_one (x / 360)
    split
    · refine ⟨by linarith, by linarith, ⌈x / 360⌉ - 1, ?_⟩
      rw [zsmul_eq_mul]
      push_cast
      ring
    · next hnot =>
      refine ⟨not_lt.mp hnot, by linarith, ⌈x / 360⌉, ?_⟩
      rw [zsmul_eq_mul]
      ring

private theorem normalizeDegrees_eq (x : ℝ) : normalizeDegrees x = toIcoMod turn_pos 0 x := by
  obtain ⟨hnonneg, hlt, hturns⟩ := modulo_spec x
  have hnot : ¬ (360.0 : ℝ) ≤ Scalar.modulo x 360.0 := by
    norm_num at hlt ⊢
    exact hlt
  unfold normalizeDegrees
  dsimp only
  rw [if_neg hnot]
  exact ((toIcoMod_eq_iff turn_pos).mpr ⟨⟨hnonneg, by rwa [zero_add]⟩, hturns⟩).symm

theorem normalizeDegrees_mem (x : ℝ) : normalizeDegrees x ∈ Set.Ico 0 360 := by
  rw [normalizeDegrees_eq]
  exact toIcoMod_mem_Ico' turn_pos x

theorem normalizeDegrees_modEq (x : ℝ) : normalizeDegrees x ≡ x [PMOD 360] := by
  rw [normalizeDegrees_eq, ← toIcoMod_inj turn_pos (c := 0), toIcoMod_toIcoMod]

theorem normalizeDegrees_inj {x y : ℝ} :
    normalizeDegrees x = normalizeDegrees y ↔ x ≡ y [PMOD 360] := by
  rw [normalizeDegrees_eq, normalizeDegrees_eq, toIcoMod_inj]

theorem normalizeDegrees_of_lt {x : ℝ} (hnonneg : 0 ≤ x) (hlt : x < 360) :
    normalizeDegrees x = x := by
  rw [normalizeDegrees_eq, toIcoMod_eq_self]
  exact ⟨hnonneg, by rwa [zero_add]⟩

theorem normalizeDegrees_turn : normalizeDegrees (360 : ℝ) = 0 := by
  have hsame : normalizeDegrees (360 : ℝ) = normalizeDegrees 0 :=
    normalizeDegrees_inj.mpr AddCommGroup.self_modEq_zero
  rw [hsame, normalizeDegrees_of_lt (le_refl 0) turn_pos]

theorem radians_eq (x : ℝ) : radians x = x * (Real.pi / 180) := by
  change x * (Real.pi / 180.0) = _
  norm_num

theorem degrees_eq (x : ℝ) : degrees x = x * (180 / Real.pi) := by
  change x * (180.0 / Real.pi) = _
  norm_num

theorem radians_degrees (x : ℝ) : radians (degrees x) = x := by
  have hpi := Real.pi_ne_zero
  rw [radians_eq, degrees_eq]
  field_simp

theorem degrees_radians (x : ℝ) : degrees (radians x) = x := by
  have hpi := Real.pi_ne_zero
  rw [radians_eq, degrees_eq]
  field_simp

private theorem exists_radians {x y : ℝ} (h : x ≡ y [PMOD 360]) :
    ∃ turns : ℤ, radians x = radians y + turns * (2 * Real.pi) := by
  obtain ⟨turns, hturns⟩ := AddCommGroup.modEq_iff_eq_add_zsmul.mp h.symm
  refine ⟨turns, ?_⟩
  rw [hturns, radians_eq, radians_eq, zsmul_eq_mul]
  ring

theorem cos_radians {x y : ℝ} (h : x ≡ y [PMOD 360]) :
    Real.cos (radians x) = Real.cos (radians y) := by
  obtain ⟨turns, hturns⟩ := exists_radians h
  rw [hturns, Real.cos_add_int_mul_two_pi]

theorem sin_radians {x y : ℝ} (h : x ≡ y [PMOD 360]) :
    Real.sin (radians x) = Real.sin (radians y) := by
  obtain ⟨turns, hturns⟩ := exists_radians h
  rw [hturns, Real.sin_add_int_mul_two_pi]

end Angle

end Toolpath
