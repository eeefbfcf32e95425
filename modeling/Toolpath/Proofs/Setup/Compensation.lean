import Mathlib
import Toolpath.Proofs.Model.NominalHeights
import Toolpath.Proofs.Scalar.Rounding
import Toolpath.Proofs.Setup.Weights

/-!
The two ways to compute a height over a probed bed: the expression that is written into a program,
and the number that is computed from the measurements directly. The expression holds rounded
numbers. As the weights add up to one, rounding the targets moves the height by no more than
rounding one of them does, and so does rounding the nominal height; only the rounding of the weights
counts for more where the bed is further from where it is expected.
-/

set_option autoImplicit false

namespace Toolpath

open Formula (evaluate?)

noncomputable def HeightTerm.height (measured : List ℝ) (t : HeightTerm) : ℝ :=
  t.weight.real * (measured.getD t.probe 0 + (if t.added then 1 else -1) * t.target.real)

/-- What a printed height comes to with measurements that are real numbers. -/
noncomputable def HeightExpr.height (measured : List ℝ) (e : HeightExpr) : ℝ :=
  e.nominal.real + (e.terms.map (HeightTerm.height measured)).sum

section Reading

variable {parameter : Nat → Option ℚ} {measured : List ℝ}

/-- The parameters of the probes hold what was measured, as far as that is rational. -/
def HoldsMeasured (parameter : Nat → Option ℚ) (measured : List ℝ) (count : Nat) : Prop :=
  ∀ i < count, ∃ q : ℚ, parameter (probeVariable i) = some q ∧ measured[i]? = some (q : ℝ)

private theorem HeightTerm.exists_value? {t : HeightTerm} {weight target : ℚ} {count : Nat}
    (hweight : t.weight.value? = some weight) (htarget : t.target.value? = some target)
    (hprobe : t.probe < count) (holds : HoldsMeasured parameter measured count) :
    ∃ v, t.value? parameter = some v ∧ (v : ℝ) = t.height measured := by
  obtain ⟨q, hparameter, hmeasured⟩ := holds t.probe hprobe
  refine ⟨weight * (q + (if t.added then 1 else -1) * target), ?_, ?_⟩
  · simp only [HeightTerm.value?, hweight, hparameter, htarget, Option.bind_eq_bind,
      Option.bind_some, Option.pure_def]
  · rw [HeightTerm.height, Numeral.real_eq hweight, Numeral.real_eq htarget,
      List.getD_eq_getElem?_getD, hmeasured, Option.getD_some]
    cases t.added <;> simp

private theorem exists_mapM_value? {ts : List HeightTerm}
    (h : ∀ t ∈ ts, ∃ v, t.value? parameter = some v ∧ (v : ℝ) = t.height measured) :
    ∃ vs, ts.mapM (HeightTerm.value? parameter) = some vs ∧
      ((vs.sum : ℚ) : ℝ) = (ts.map (HeightTerm.height measured)).sum := by
  induction ts with
  | nil => exact ⟨[], rfl, by simp⟩
  | cons t ts ih =>
    obtain ⟨ht, hts⟩ := List.forall_mem_cons.mp h
    obtain ⟨v, hv, hheight⟩ := ht
    obtain ⟨vs, hvs, hsum⟩ := ih hts
    refine ⟨v :: vs, ?_, ?_⟩
    · rw [List.mapM_cons, hv, hvs]
      rfl
    · rw [List.sum_cons, List.map_cons, List.sum_cons, ← hheight, ← hsum]
      push_cast
      rfl

end Reading

namespace Setup

variable {s : Setup ℝ} {world : Point ℝ} {nominal : ℝ} {measured : List ℝ}

private theorem height_term (i : Nat) (probe : BedProbe ℝ) (w : ℝ) :
    (term i probe w).height measured =
      (Scalar.roundTo 4 w).real * (measured.getD i 0 - (Model.targetValue probe : ℝ)) := by
  have finite (x : ℝ) : Scalar.isFinite x = true := by simp [Scalar.isFinite]
  have htarget : (Model.targetValue probe : ℝ) = (Scalar.coordinateNumeral probe.target).real := rfl
  rw [HeightTerm.height, htarget]
  by_cases hneg : probe.target < 0.0
  · obtain ⟨d, d', hd, hd', hvalue⟩ := Scalar.coordinateNumeral_neg (finite _) hneg
    have hreal : (Scalar.coordinateNumeral probe.target).real = d.value := by
      rw [hd]
      rfl
    have hprinted : (Scalar.coordinateNumeral (-probe.target)).real = -(d.value : ℝ) := by
      rw [hd', ← Rat.cast_neg, ← hvalue]
      rfl
    simp only [term, hneg, decide_true, if_true, hreal, hprinted]
    ring
  · simp only [term, hneg, decide_false, Bool.false_eq_true, if_false]
    ring

private theorem abs_height_term_sub_le (i : Nat) (probe : BedProbe ℝ) {w : ℝ} (hw : 0 ≤ w) :
    |(term i probe w).height measured - w * (measured.getD i 0 - probe.target)| ≤
      0.00005 * |measured.getD i 0 - (Model.targetValue probe : ℝ)| + 0.0005 * w := by
  rw [height_term]
  let m := measured.getD i 0
  let printed : ℝ := (Scalar.roundTo 4 w).real
  let target : ℝ := Model.targetValue probe
  have hprinted : |printed - w| ≤ 0.00005 := by
    have hround := RealScalar.abs_real_roundTo_sub_le 4 w
    norm_num at hround ⊢
    exact hround
  have htarget : |target - probe.target| ≤ 0.0005 := by
    have hround := RealScalar.abs_real_coordinateNumeral_sub_le probe.target
    norm_num at hround ⊢
    exact hround
  show |printed * (m - target) - w * (m - probe.target)| ≤ 0.00005 * |m - target| + 0.0005 * w
  calc |printed * (m - target) - w * (m - probe.target)|
      = |(printed - w) * (m - target) + -(w * (target - probe.target))| := by ring_nf
    _ ≤ |(printed - w) * (m - target)| + |-(w * (target - probe.target))| := abs_add_le _ _
    _ = |printed - w| * |m - target| + w * |target - probe.target| := by
      rw [abs_neg, abs_mul, abs_mul, abs_of_nonneg hw]
    _ ≤ 0.00005 * |m - target| + w * 0.0005 :=
      add_le_add (mul_le_mul_of_nonneg_right hprinted (abs_nonneg _))
        (mul_le_mul_of_nonneg_left htarget hw)
    _ = 0.00005 * |m - target| + 0.0005 * w := by rw [mul_comm w]

private theorem heightAt_eq (covered : s.probes.length ≤ measured.length) :
    s.heightAt world nominal measured =
      nominal + ((s.weighted world).map fun (i, probe, w) =>
        w * (measured.getD i 0 - probe.target)).sum := by
  rw [heightAt, RealScalar.sum_eq, add_comm]
  congr 2
  apply List.map_congr_left
  rintro ⟨i, probe, w⟩ hmem
  obtain ⟨-, hprobe⟩ := mem_weighted.mp hmem
  have hi : i < measured.length := by
    obtain ⟨hlt, -⟩ := List.getElem?_eq_some_iff.mp hprobe
    omega
  show w * ((measured[i]?).getD probe.target - probe.target) =
    w * (measured.getD i 0 - probe.target)
  rw [List.getD_eq_getElem?_getD, List.getElem?_eq_getElem hi, Option.getD_some, Option.getD_some]

private theorem exists_value?_heightExpr {parameter : Nat → Option ℚ} (world : Point ℝ)
    (nominal : ℝ) (holds : HoldsMeasured parameter measured s.probes.length) :
    ∃ v, (s.heightExpr world nominal).value? parameter = some v ∧
      (v : ℝ) = (s.heightExpr world nominal).height measured := by
  obtain ⟨height, hheight, -⟩ := RealScalar.value?_coordinateNumeral nominal
  have hterms : ∀ t ∈ (s.heightExpr world nominal).terms,
      ∃ v, t.value? parameter = some v ∧ (v : ℝ) = t.height measured := by
    intro t ht
    obtain ⟨⟨i, probe, w⟩, hmem, rfl⟩ := List.mem_map.mp ht
    obtain ⟨hi, -⟩ := List.getElem?_eq_some_iff.mp (mem_weighted.mp hmem).2
    obtain ⟨weight, hweight, -⟩ := RealScalar.value?_roundTo 4 w
    obtain ⟨target, htarget, -⟩ := RealScalar.value?_coordinateNumeral
      (if probe.target < 0.0 then -probe.target else probe.target)
    exact HeightTerm.exists_value? hweight htarget hi holds
  obtain ⟨vs, hvs, hsum⟩ := exists_mapM_value? hterms
  have hnominal : (s.heightExpr world nominal).nominal.value? = some height := hheight
  refine ⟨height + vs.sum, ?_, ?_⟩
  · simp only [HeightExpr.value?, hnominal, hvs, Option.bind_eq_bind, Option.bind_some,
      Option.pure_def]
  · rw [HeightExpr.height, Numeral.real_eq hnominal, ← hsum]
    push_cast
    rfl

private theorem abs_height_sub_heightAt_le (hprobes : s.probes ≠ [])
    (covered : s.probes.length ≤ measured.length) :
    |(s.heightExpr world nominal).height measured - s.heightAt world nominal measured| ≤
      0.001 + 0.00005 * ((s.weighted world).map fun (i, probe, _) =>
        |measured.getD i 0 - (Model.targetValue probe : ℝ)|).sum := by
  let deviation : Nat × BedProbe ℝ × ℝ → ℝ := fun x =>
    |measured.getD x.1 0 - (Model.targetValue x.2.1 : ℝ)|
  have hcorrections : |((s.heightExpr world nominal).terms.map (HeightTerm.height measured)).sum -
      ((s.weighted world).map fun x => x.2.2 * (measured.getD x.1 0 - x.2.1.target)).sum| ≤
      ((s.weighted world).map fun x => 0.00005 * deviation x + 0.0005 * x.2.2).sum := by
    show |(((s.weighted world).map fun x => term x.1 x.2.1 x.2.2).map
      (HeightTerm.height measured)).sum - _| ≤ _
    rw [List.map_map]
    apply RealScalar.abs_sum_sub_sum_le
    intro x hx
    exact abs_height_term_sub_le x.1 x.2.1 (nonneg_of_mem_weighted x hx)
  have hone : ((s.weighted world).map fun x => x.2.2).sum = 1 := sum_weighted hprobes
  rw [List.sum_map_add, List.sum_map_mul_left, List.sum_map_mul_left, hone] at hcorrections
  have hnominal := RealScalar.abs_real_coordinateNumeral_sub_le nominal
  rw [heightAt_eq covered, HeightExpr.height]
  show |(Scalar.coordinateNumeral nominal).real + _ - (nominal + _)| ≤
    0.001 + 0.00005 * ((s.weighted world).map deviation).sum
  rw [abs_le] at hnominal hcorrections ⊢
  constructor
  · linarith [hnominal.1, hcorrections.1]
  · linarith [hnominal.2, hcorrections.2]

/-- The height that is written for a point of a probed bed is the height that is computed for it, up
to the rounding of what is written: with any measurements of all probes the two differ by a
thousandth and, for each probe that is written, by a twenty-thousandth of how far its measurement is
from its printed target. What is written is read so: wherever the parameters of the probes hold the
measurements, a machine computes this height from the text. -/
theorem heightText_compensates (s : Setup ℝ) (world : Point ℝ) (nominal : ℝ) (measured : List ℝ)
    (hprobes : s.probes ≠ []) (covered : s.probes.length ≤ measured.length) :
    let height := (s.heightExpr world nominal).height measured
    |height - s.heightAt world nominal measured| ≤
        0.001 + 0.00005 * ((s.weighted world).map fun (i, probe, _) =>
          |measured.getD i 0 - (Model.targetValue probe : ℝ)|).sum ∧
      ∀ parameter : Nat → Option ℚ, HoldsMeasured parameter measured s.probes.length →
        ∃ v, evaluate? parameter (s.heightText world nominal).toList = some v ∧
          (v : ℝ) = height := by
  intro height
  refine ⟨abs_height_sub_heightAt_le hprobes covered, fun parameter holds => ?_⟩
  obtain ⟨v, hv, hreal⟩ := exists_value?_heightExpr world nominal holds
  exact ⟨v, HeightExpr.evaluate?_text hv, hreal⟩

section Bed

noncomputable def slopingBed : Setup ℝ :=
  ⟨.identity, [⟨⟨0, 0⟩, -1.5⟩, ⟨⟨10.0, 0⟩, 0⟩]⟩

def slopingParameters (n : Nat) : Option ℚ := if n = 1000 then some (-14 / 10) else some (1 / 5)

theorem heightText_compensates_slopingBed :
    let measured : List ℝ := [-1.4, 0.2]
    slopingBed.probes ≠ [] ∧ slopingBed.probes.length ≤ measured.length ∧
      HoldsMeasured slopingParameters measured slopingBed.probes.length ∧
      ∃ v, evaluate? slopingParameters (slopingBed.heightText ⟨3, 4⟩ (-0.25)).toList = some v ∧
        |(v : ℝ) - slopingBed.heightAt ⟨3, 4⟩ (-0.25) measured| ≤
          0.001 + 0.00005 * ((slopingBed.weighted ⟨3, 4⟩).map fun (i, probe, _) =>
            |measured.getD i 0 - (Model.targetValue probe : ℝ)|).sum := by
  intro measured
  have hprobes : slopingBed.probes ≠ [] := by simp [slopingBed]
  have hcovered : slopingBed.probes.length ≤ measured.length := by simp [slopingBed, measured]
  have hholds : HoldsMeasured slopingParameters measured slopingBed.probes.length := by
    intro i hi
    have hcases : i = 0 ∨ i = 1 := by
      have hlt : i < 2 := hi
      omega
    rcases hcases with rfl | rfl
    · exact ⟨-14 / 10, rfl, by norm_num [measured]⟩
    · exact ⟨1 / 5, rfl, by norm_num [measured]⟩
  obtain ⟨hclose, hread⟩ :=
    heightText_compensates slopingBed ⟨3, 4⟩ (-0.25) measured hprobes hcovered
  obtain ⟨v, hv, hheight⟩ := hread slopingParameters hholds
  refine ⟨hprobes, hcovered, hholds, v, hv, ?_⟩
  rw [hheight]
  exact hclose

end Bed

end Setup

end Toolpath
