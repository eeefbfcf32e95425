import Mathlib.Algebra.Order.Floor.Semiring
import Mathlib.Tactic.FieldSimp
import Mathlib.Tactic.Linarith
import Toolpath.Layers
import Toolpath.Proofs.Scalar.Real

/-!
Descents, in exact arithmetic. A descent by a positive step takes as many steps as fit between top
and floor, with a last one for what is left; each depth is so many steps below the top, but for the
last one, which is the floor.
-/

set_option autoImplicit false

namespace Toolpath.Layers

variable {step floor : ℝ}

noncomputable def depthAfter (top step floor : ℝ) (steps : Nat) : ℝ := max (top - steps * step) floor

noncomputable def stepCount (top step floor : ℝ) : Nat := ⌈(top - floor) / step⌉₊

private theorem lt_stepCount_iff (hstep : 0 < step) {top : ℝ} {k : Nat} :
    k < stepCount top step floor ↔ floor < top - k * step := by
  rw [stepCount, Nat.lt_ceil, lt_div_iff₀ hstep, lt_sub_comm]

private theorem stepCount_eq_zero (hstep : 0 < step) {top : ℝ} (h : top ≤ floor) :
    stepCount top step floor = 0 := by
  rw [stepCount, Nat.ceil_eq_zero]
  exact div_nonpos_of_nonpos_of_nonneg (sub_nonpos.mpr h) hstep.le

private theorem stepCount_sub (hstep : 0 < step) {top : ℝ} (h : floor < top) :
    stepCount top step floor = stepCount (top - step) step floor + 1 := by
  have hpos : 0 < stepCount top step floor := by
    rw [lt_stepCount_iff hstep, Nat.cast_zero, zero_mul, sub_zero]
    exact h
  have hless : (top - step - floor) / step = (top - floor) / step - 1 := by
    field_simp
    ring
  have hsub : stepCount (top - step) step floor = stepCount top step floor - 1 := by
    rw [stepCount, hless, Nat.ceil_sub_one, stepCount]
  omega

private theorem descentFrom_of_le (step : ℝ) {floor depth : ℝ} (h : depth ≤ floor) (fuel : Nat) :
    descentFrom step floor fuel depth = [] := by
  cases fuel with
  | zero => rfl
  | succ fuel => rw [descentFrom, if_neg (not_lt.mpr h)]

private theorem descentFrom_eq (hstep : 0 < step) {fuel : Nat} {depth : ℝ}
    (enough : stepCount depth step floor ≤ fuel) :
    descentFrom step floor fuel depth =
      (List.range (stepCount depth step floor)).map fun k => depthAfter depth step floor (k + 1) := by
  induction fuel generalizing depth with
  | zero =>
    rw [Nat.le_zero.mp enough]
    rfl
  | succ fuel ih =>
    rw [descentFrom]
    split
    · next habove =>
      rw [stepCount_sub hstep habove] at enough ⊢
      have hrest := ih (Nat.le_of_succ_le_succ enough)
      have hshift (k : Nat) : depthAfter (depth - step) step floor (k + 1) =
          depthAfter depth step floor (k + 1 + 1) := by
        unfold depthAfter
        congr 1
        push_cast
        ring
      simp only [hshift] at hrest
      have hfirst : depthAfter depth step floor (0 + 1) =
          if depth - step < floor then floor else depth - step := by
        unfold depthAfter
        rw [zero_add, Nat.cast_one, one_mul]
        split
        · next hbelow => exact max_eq_right hbelow.le
        · next hnot => exact max_eq_left (not_lt.mp hnot)
      rw [List.range_succ_eq_map, List.map_cons, List.map_map, hfirst]
      refine congrArg _ (Eq.trans ?_ hrest)
      split
      · next hbelow => rw [descentFrom_of_le step (le_refl floor), descentFrom_of_le step hbelow.le]
      · rfl
    · next hnot =>
      rw [stepCount_eq_zero hstep (not_lt.mp hnot)]
      rfl

theorem descent_eq (hstep : 0 < step) (top floor : ℝ) :
    descent top step floor =
      (List.range (stepCount top step floor)).map fun k => depthAfter top step floor (k + 1) := by
  apply descentFrom_eq hstep
  have henough : enoughSteps top step floor = 2 * stepCount top step floor + 2 := rfl
  omega

/-- What lies between a depth of a descent and the next one: there is something left, and no more
than a step of it is taken. -/
structure Deeper (step floor depth next : ℝ) : Prop where
  above : floor < depth
  shallow : depth - step ≤ next

private theorem isChain_descentFrom (step floor : ℝ) (fuel : Nat) (depth : ℝ) :
    (depth :: descentFrom step floor fuel depth).IsChain (Deeper step floor) := by
  induction fuel generalizing depth with
  | zero => exact .singleton depth
  | succ fuel ih =>
    rw [descentFrom]
    split
    · next habove =>
      refine List.isChain_cons_cons.mpr ⟨⟨habove, ?_⟩, ih _⟩
      split
      · next hbelow => exact hbelow.le
      · exact le_refl _
    · exact .singleton depth

theorem isChain_descent (top step floor : ℝ) :
    (top :: descent top step floor).IsChain (Deeper step floor) :=
  isChain_descentFrom step floor _ top

theorem getLast?_descent (hstep : 0 < step) {top floor : ℝ} (h : floor < top) :
    (descent top step floor).getLast? = some floor := by
  obtain ⟨n, hn⟩ : ∃ n, stepCount top step floor = n + 1 := ⟨_, stepCount_sub hstep h⟩
  have hlast : ¬ floor < top - (n + 1 : Nat) * step := by
    rw [← lt_stepCount_iff hstep, hn]
    exact lt_irrefl _
  rw [descent_eq hstep, hn, List.range_succ, List.map_append, List.map_singleton,
    List.getLast?_concat, depthAfter, max_eq_right (not_lt.mp hlast)]

end Toolpath.Layers
