import Mathlib.Algebra.Order.Floor.Semiring
import Mathlib.Tactic.Linarith
import Mathlib.Tactic.FieldSimp
import Toolpath.Layers
import Toolpath.Proofs.Scalar.Real

/-!
Depths reached step by step, in exact arithmetic. They go down to the floor, which is the last one
and the only one that is not clearly above it; with a positive step none is further below the one
before it than the step, but for the tolerance of depths.
-/

set_option autoImplicit false

namespace Toolpath.Layers

variable {step floor depth : ℝ}

/-- At most a step further down, but for the tolerance. -/
def Near (step upper lower : ℝ) : Prop := upper ≤ lower + (step + depthTolerance)

theorem depthTolerance_pos : (0 : ℝ) < depthTolerance := by
  change (0 : ℝ) < 1e-6
  norm_num

private theorem depthsFrom_eq (step floor : ℝ) (fuel : Nat) (depth : ℝ) :
    ∃ upper, depthsFrom step floor fuel depth = upper ++ [floor] ∧
      ∀ d ∈ upper, floor + depthTolerance < d := by
  induction fuel generalizing depth with
  | zero => exact ⟨[], rfl, by simp⟩
  | succ fuel ih =>
    unfold depthsFrom
    split
    · next habove =>
      obtain ⟨upper, hrest, hall⟩ := ih (depth - step)
      refine ⟨depth :: upper, by rw [hrest, List.cons_append], fun d hd => ?_⟩
      rcases List.mem_cons.mp hd with rfl | hd
      · exact habove
      · exact hall d hd
    · exact ⟨[], rfl, by simp⟩

private theorem le_max_of_mem_depthsFrom (hstep : 0 < step) {fuel : Nat} {d : ℝ}
    (h : d ∈ depthsFrom step floor fuel depth) : d ≤ max depth floor := by
  induction fuel generalizing depth with
  | zero =>
    rw [List.mem_singleton.mp h]
    exact le_max_right _ _
  | succ fuel ih =>
    unfold depthsFrom at h
    split at h
    · rcases List.mem_cons.mp h with rfl | h
      · exact le_max_left _ _
      · have hless : depth - step ≤ depth := by linarith
        exact (ih h).trans (max_le_max_right floor hless)
    · rw [List.mem_singleton.mp h]
      exact le_max_right _ _

private theorem pairwise_depthsFrom (hstep : 0 < step) (fuel : Nat) :
    (depthsFrom step floor fuel depth).Pairwise fun upper lower => lower ≤ upper := by
  induction fuel generalizing depth with
  | zero => simp [depthsFrom]
  | succ fuel ih =>
    unfold depthsFrom
    split
    · next habove =>
      refine List.pairwise_cons.mpr ⟨fun d hd => ?_, ih⟩
      have hfloor : floor ≤ depth := by linarith [depthTolerance_pos]
      have hless : depth - step ≤ depth := by linarith
      exact (le_max_of_mem_depthsFrom hstep hd).trans (max_le hless hfloor)
    · simp

private theorem isChain_depthsFrom {fuel : Nat} (enough : depth ≤ floor + fuel * step) :
    List.IsChain (Near step) ((depth + step) :: depthsFrom step floor fuel depth) := by
  induction fuel generalizing depth with
  | zero =>
    have hnear : Near step (depth + step) floor := by
      have hdepth : depth ≤ floor := by simpa using enough
      unfold Near
      linarith [depthTolerance_pos]
    simpa [depthsFrom] using hnear
  | succ fuel ih =>
    unfold depthsFrom
    split
    · have hfirst : Near step (depth + step) depth := by
        unfold Near
        linarith [depthTolerance_pos]
      have hless : depth - step ≤ floor + fuel * step := by
        push_cast at enough
        linarith
      have hrest := ih hless
      rw [sub_add_cancel] at hrest
      exact List.isChain_cons_cons.mpr ⟨hfirst, hrest⟩
    · next hbelow =>
      have hlast : Near step (depth + step) floor := by
        have hdepth := not_lt.mp hbelow
        unfold Near
        linarith
      simpa using hlast

private theorem le_enoughSteps (hstep : 0 < step) (top floor : ℝ) :
    top - step ≤ floor + (enoughSteps top step floor : Nat) * step := by
  have hceil : (top - floor) / step ≤ (⌈(top - floor) / step⌉₊ : ℝ) := Nat.le_ceil _
  have hless : top - floor ≤ ⌈(top - floor) / step⌉₊ * step := (div_le_iff₀ hstep).mp hceil
  have hsteps : (enoughSteps top step floor : ℝ) = 2 * ⌈(top - floor) / step⌉₊ + 2 := by
    change ((2 * ⌈(top - floor) / step⌉₊ + 2 : Nat) : ℝ) = _
    push_cast
    ring
  have hceil_nonneg : (0 : ℝ) ≤ ⌈(top - floor) / step⌉₊ * step :=
    mul_nonneg (Nat.cast_nonneg _) hstep.le
  rw [hsteps]
  linarith

theorem depths_eq (top : ℝ) (step : Option ℝ) (floor : ℝ) :
    ∃ upper, depths top step floor = upper ++ [floor] ∧
      ∀ d ∈ upper, floor + depthTolerance < d := by
  unfold depths
  split
  · split
    · exact depthsFrom_eq _ _ _ _
    · exact ⟨[], rfl, by simp⟩
  · exact ⟨[], rfl, by simp⟩

theorem pairwise_depths (top : ℝ) (step : Option ℝ) (floor : ℝ) :
    (depths top step floor).Pairwise fun upper lower => lower ≤ upper := by
  unfold depths
  split
  · split
    · next hstep =>
      have hpos : (0 : ℝ) < _ := lt_of_eq_of_lt (by norm_num) hstep
      exact pairwise_depthsFrom hpos _
    · simp
  · simp

theorem isChain_depths (hstep : 0 < step) (top floor : ℝ) :
    List.IsChain (Near step) (top :: depths top (some step) floor) := by
  have hpos : (0.0 : ℝ) < step := lt_of_eq_of_lt (by norm_num) hstep
  have hchain := isChain_depthsFrom (le_enoughSteps hstep top floor)
  rw [sub_add_cancel] at hchain
  unfold depths
  simpa only [if_pos hpos] using hchain

end Toolpath.Layers
