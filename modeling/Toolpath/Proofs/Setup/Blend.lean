import Toolpath.Proofs.Geometry.Motions
import Toolpath.Proofs.Setup.Weights

/-!
The correction over a probed bed as a mean of the corrections of its probes, in exact arithmetic.
At a probe only this probe counts, the first one if there are several, and everywhere else all
distances are positive, so that nothing is divided by zero. As the weights are a distribution, the
height is corrected by no less than the least and by no more than the greatest correction, and by
what all of them are if they are the same.
-/

set_option autoImplicit false

namespace Toolpath.Setup

variable {s : Setup ℝ} {world : Point ℝ}

/-- A probe that stands at the point, while none before it does. -/
def FirstAt (s : Setup ℝ) (world : Point ℝ) (i : Nat) : Prop :=
  (∃ probe, s.probes[i]? = some probe ∧ probe.position.distance world ≤ positionTolerance) ∧
    ∀ j < i, ∀ other, s.probes[j]? = some other →
      positionTolerance < other.position.distance world

/-- All probes are away from the point. -/
def Away (s : Setup ℝ) (world : Point ℝ) : Prop :=
  ∀ probe ∈ s.probes, positionTolerance < probe.position.distance world

private theorem not_coincides_iff {p q : Point ℝ} :
    p.coincides q = false ↔ positionTolerance < p.distance q := by
  rw [← Bool.not_eq_true, Point.coincides_iff, not_le]

private theorem weights_eq (s : Setup ℝ) (world : Point ℝ) :
    (∃ i, s.FirstAt world i ∧ s.weights world = [(i, 1)]) ∨
    (s.Away world ∧ s.weights world = (s.inverseSquares world).zipIdx.map fun (w, i) =>
      (i, w / Scalar.sum (s.inverseSquares world))) := by
  have hone : (1.0 : ℝ) = 1 := by norm_num
  unfold weights
  split
  · next i hfirst =>
    obtain ⟨hlt, hnear, hbefore⟩ := List.findIdx?_eq_some_iff_getElem.mp hfirst
    have hprobe : s.probes[i]? = some s.probes[i] := List.getElem?_eq_getElem hlt
    refine Or.inl ⟨i, ⟨⟨s.probes[i], hprobe, Point.coincides_iff.mp hnear⟩, ?_⟩, by rw [hone]⟩
    intro j hj other hother
    obtain ⟨-, rfl⟩ := List.getElem?_eq_some_iff.mp hother
    exact not_coincides_iff.mp (by simpa using hbefore j hj)
  · next hnone =>
    refine Or.inr ⟨fun probe hprobe => ?_, rfl⟩
    exact not_coincides_iff.mp (by simpa using List.findIdx?_eq_none_iff.mp hnone probe hprobe)

private theorem Away.divisors_pos (away : s.Away world) (probed : s.probes ≠ []) :
    (∀ probe ∈ s.probes, 0 < Scalar.square (probe.position.distance world)) ∧
      0 < Scalar.sum (s.inverseSquares world) := by
  have happart : ∀ probe ∈ s.probes, probe.position.coincides world = false :=
    fun probe hprobe => not_coincides_iff.mpr (away probe hprobe)
  refine ⟨fun probe hprobe => ?_, ?_⟩
  · have hdistance := RealScalar.distance_pos (happart probe hprobe)
    exact mul_pos hdistance hdistance
  · rw [RealScalar.sum_eq]
    exact List.sum_pos _ (pos_of_mem_inverseSquares happart) (List.map_eq_nil_iff.not.mpr probed)

section Corrections

variable {nominal : ℝ} {measured : List ℝ}

def correction (measured : List ℝ) (i : Nat) (probe : BedProbe ℝ) : ℝ :=
  (measured[i]?).getD probe.target - probe.target

noncomputable def corrections (s : Setup ℝ) (measured : List ℝ) : List ℝ :=
  s.probes.zipIdx.map fun (probe, i) => correction measured i probe

private theorem mem_corrections {c : ℝ} :
    c ∈ s.corrections measured ↔
      ∃ i probe, s.probes[i]? = some probe ∧ correction measured i probe = c := by
  unfold corrections
  rw [List.mem_map]
  constructor
  · rintro ⟨⟨probe, i⟩, hmem, rfl⟩
    exact ⟨i, probe, List.mem_zipIdx_iff_getElem?.mp hmem, rfl⟩
  · rintro ⟨i, probe, hprobe, rfl⟩
    exact ⟨(probe, i), List.mem_zipIdx_iff_getElem?.mpr hprobe, rfl⟩

private theorem correction_mem_of_mem_weighted :
    ∀ x ∈ s.weighted world, correction measured x.1 x.2.1 ∈ s.corrections measured := by
  rintro ⟨i, probe, w⟩ hmem
  exact mem_corrections.mpr ⟨i, probe, (mem_weighted.mp hmem).2, rfl⟩

private theorem heightAt_eq_add (s : Setup ℝ) (world : Point ℝ) (nominal : ℝ) (measured : List ℝ) :
    s.heightAt world nominal measured = nominal +
      ((s.weighted world).map fun x => x.2.2 * correction measured x.1 x.2.1).sum := by
  rw [add_comm, ← RealScalar.sum_eq]
  rfl

private theorem sum_weighted_mem {β : Type} {xs : List β} {w c : β → ℝ} {low high : ℝ}
    (nonneg : ∀ x ∈ xs, 0 ≤ w x) (bounds : ∀ x ∈ xs, c x ∈ Set.Icc low high) :
    (xs.map fun x => w x * c x).sum ∈
      Set.Icc ((xs.map w).sum * low) ((xs.map w).sum * high) := by
  rw [← List.sum_map_mul_right, ← List.sum_map_mul_right]
  constructor
  · exact List.sum_le_sum fun x hx => mul_le_mul_of_nonneg_left (bounds x hx).1 (nonneg x hx)
  · exact List.sum_le_sum fun x hx => mul_le_mul_of_nonneg_left (bounds x hx).2 (nonneg x hx)

private theorem heightAt_mem (probed : s.probes ≠ []) (world : Point ℝ) (nominal : ℝ) {low high : ℝ}
    (bounds : ∀ c ∈ s.corrections measured, c ∈ Set.Icc low high) :
    s.heightAt world nominal measured ∈ Set.Icc (nominal + low) (nominal + high) := by
  have hnonneg : ∀ x ∈ s.weighted world, 0 ≤ x.2.2 := nonneg_of_mem_weighted
  have hsum := sum_weighted_mem hnonneg fun x hx => bounds _ (correction_mem_of_mem_weighted x hx)
  rw [sum_weighted probed, one_mul, one_mul] at hsum
  rw [heightAt_eq_add]
  exact ⟨add_le_add_right hsum.1 nominal, add_le_add_right hsum.2 nominal⟩

/-- All probes were measured the same distance above their targets. -/
def Shifted (s : Setup ℝ) (measured : List ℝ) (c : ℝ) : Prop :=
  ∀ (i : Nat) (probe : BedProbe ℝ), s.probes[i]? = some probe →
    measured[i]? = some (probe.target + c)

private theorem heightAt_of_shifted (probed : s.probes ≠ []) {c : ℝ}
    (shifted : s.Shifted measured c) :
    s.heightAt world nominal measured = nominal + c := by
  have hall : ∀ d ∈ s.corrections measured, d ∈ Set.Icc c c := by
    intro d hd
    obtain ⟨i, probe, hprobe, rfl⟩ := mem_corrections.mp hd
    rw [correction, shifted i probe hprobe, Option.getD_some, add_sub_cancel_left]
    exact ⟨le_refl c, le_refl c⟩
  obtain ⟨hlow, hhigh⟩ := heightAt_mem probed world nominal hall
  exact le_antisymm hhigh hlow

end Corrections

/-- The correction over a probed bed is a mean of the corrections of the probes. At every point the
weights are a distribution. The first probe at the point, if there is one, has all of the weight;
otherwise the weights are quotients with positive divisors. So for all measurements the height is
corrected by no less than the least and no more than the greatest correction of a probe, where one
that is not measured has none, and if all probes are measured the same distance above their targets,
by this distance. -/
theorem weights_blend (s : Setup ℝ) (world : Point ℝ) (probed : s.probes ≠ []) :
    ((∀ x ∈ s.weights world, 0 ≤ x.2) ∧ ((s.weights world).map Prod.snd).sum = 1) ∧
    ((∃ i, s.FirstAt world i ∧ s.weights world = [(i, 1)]) ∨
      s.Away world ∧
        (∀ probe ∈ s.probes, 0 < Scalar.square (probe.position.distance world)) ∧
        0 < Scalar.sum (s.inverseSquares world) ∧
        s.weights world = (s.inverseSquares world).zipIdx.map fun (w, i) =>
          (i, w / Scalar.sum (s.inverseSquares world))) ∧
    ∀ (nominal : ℝ) (measured : List ℝ),
      (∃ low ∈ s.corrections measured, ∃ high ∈ s.corrections measured,
        (∀ c ∈ s.corrections measured, low ≤ c ∧ c ≤ high) ∧
          nominal + low ≤ s.heightAt world nominal measured ∧
          s.heightAt world nominal measured ≤ nominal + high) ∧
      ∀ c, s.Shifted measured c → s.heightAt world nominal measured = nominal + c := by
  refine ⟨⟨nonneg_of_mem_weights, sum_weights probed⟩, ?_, fun nominal measured => ⟨?_, ?_⟩⟩
  · refine (s.weights_eq world).imp_right fun ⟨away, hweights⟩ => ?_
    obtain ⟨hsquares, htotal⟩ := away.divisors_pos probed
    exact ⟨away, hsquares, htotal, hweights⟩
  · have hsome : 0 < (s.corrections measured).length := by
      rw [corrections, List.length_map, List.length_zipIdx]
      exact List.length_pos_iff.mpr probed
    have hbounds : ∀ c ∈ s.corrections measured,
        List.minimum_of_length_pos hsome ≤ c ∧ c ≤ List.maximum_of_length_pos hsome := fun c hc =>
      ⟨List.minimum_of_length_pos_le_of_mem hc hsome, List.le_maximum_of_length_pos_of_mem hc hsome⟩
    obtain ⟨hlow, hhigh⟩ := heightAt_mem probed world nominal hbounds
    exact ⟨_, List.minimum_of_length_pos_mem hsome, _, List.maximum_of_length_pos_mem hsome,
      hbounds, hlow, hhigh⟩
  · exact fun c shifted => heightAt_of_shifted probed shifted

section Bed

noncomputable def doublyProbed : Setup ℝ :=
  ⟨.identity, [⟨⟨10.0, 0⟩, 0⟩, ⟨⟨0, 0⟩, -1.5⟩, ⟨⟨0, 0⟩, 2.0⟩]⟩

theorem weights_blend_doublyProbed :
    doublyProbed.probes ≠ [] ∧ doublyProbed.weights ⟨0, 0⟩ = [(1, 1)] ∧
      -0.25 ≤ doublyProbed.heightAt ⟨3, 4⟩ (-0.25) [0.3] ∧
      doublyProbed.heightAt ⟨3, 4⟩ (-0.25) [0.3] ≤ 0.05 ∧
      doublyProbed.heightAt ⟨3, 4⟩ (-0.25) [0.5, -1, 2.5] = -0.25 + 0.5 := by
  have hprobed : doublyProbed.probes ≠ [] := by simp [doublyProbed]
  have hhere : (⟨0, 0⟩ : Point ℝ).distance ⟨0, 0⟩ ≤ positionTolerance := by
    rw [Point.distance_self]
    exact positionTolerance_pos.le
  refine ⟨hprobed, ?_, ?_⟩
  · obtain ⟨-, hweights, -⟩ := weights_blend doublyProbed ⟨0, 0⟩ hprobed
    rcases hweights with ⟨i, ⟨⟨probe, hprobe, hnear⟩, hbefore⟩, hweights⟩ | ⟨haway, -⟩
    · have hi : i = 1 := by
        rcases i with _ | _ | i
        · obtain rfl := Option.some.inj hprobe
          norm_num [Point.distance, Scalar.hypot, positionTolerance] at hnear
        · rfl
        · exact absurd hhere (not_le.mpr (hbefore 1 (by omega) _ rfl))
      rw [hweights, hi]
    · exact absurd hhere (not_le.mpr (haway ⟨⟨0, 0⟩, -1.5⟩ (by simp [doublyProbed])))
  · obtain ⟨-, -, hheights⟩ := weights_blend doublyProbed ⟨3, 4⟩ hprobed
    obtain ⟨⟨low, hlow, high, hhigh, -, hbelow, habove⟩, -⟩ := hheights (-0.25) [0.3]
    have hcorrections : doublyProbed.corrections [0.3] = [0.3, 0, 0] := by
      norm_num [corrections, correction, doublyProbed]
    have hshifted : doublyProbed.Shifted [0.5, -1, 2.5] 0.5 := by
      intro i probe hprobe
      rcases i with _ | _ | _ | i
      case zero | succ.zero | succ.succ.zero =>
        obtain rfl := Option.some.inj hprobe
        norm_num
      case succ.succ.succ => simp [doublyProbed] at hprobe
    rw [hcorrections] at hlow hhigh
    have hnonneg : 0 ≤ low := by
      simp only [List.mem_cons, List.not_mem_nil, or_false] at hlow
      rcases hlow with rfl | rfl | rfl <;> norm_num
    have hle : high ≤ 0.3 := by
      simp only [List.mem_cons, List.not_mem_nil, or_false] at hhigh
      rcases hhigh with rfl | rfl | rfl <;> norm_num
    refine ⟨by linarith, by linarith, (hheights (-0.25) [0.5, -1, 2.5]).2 0.5 hshifted⟩

end Bed

end Toolpath.Setup
