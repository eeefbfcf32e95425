import Mathlib.Analysis.SpecialFunctions.Complex.Arg
import Mathlib.Analysis.Real.Sqrt
import Toolpath.Proofs.Scalar.Order

/-!
Real numbers as scalars: exact arithmetic, where a height is what its formula says. They are printed
as decimals of a fixed number of places; only texts depend on that.
-/

set_option autoImplicit false

namespace Toolpath.RealScalar

/-- The natural number nearest to a real one that is not negative, a half going to the even
neighbour. -/
noncomputable def roundNat (x : ℝ) : Nat :=
  let below := ⌊x⌋₊
  if x - below < 1 / 2 ∨ x - below = 1 / 2 ∧ below % 2 = 0 then below else below + 1

noncomputable def roundTo (places : Nat) (x : ℝ) : Numeral :=
  .finite ⟨decide (x < 0), roundNat (|x| * 10 ^ places), -places⟩

noncomputable instance : Scalar ℝ where
  beq x y := decide (x = y)
  decideLt := fun a b => inferInstanceAs (Decidable (a < b))
  decideLe := fun a b => inferInstanceAs (Decidable (a ≤ b))
  pi := Real.pi
  sqrt := Real.sqrt
  hypot x y := Real.sqrt (x ^ 2 + y ^ 2)
  sin := Real.sin
  cos := Real.cos
  atan2 y x := Complex.arg ⟨x, y⟩
  remainder x y := x - y * (if 0 ≤ x / y then ⌊x / y⌋ else ⌈x / y⌉ : ℤ)
  floorNat x := ⌊x⌋₊
  ceilNat x := ⌈x⌉₊
  totalCompare := compare
  roundTo := roundTo
  shortest := roundTo 17
  ofDecimal d := (if d.negative then -1 else 1) * d.mantissa * 10 ^ d.exponent

theorem abs_eq (x : ℝ) : Scalar.abs x = |x| := by
  have hzero : (0.0 : ℝ) = 0 := by norm_num
  unfold Scalar.abs
  split
  · next hneg =>
    have hlt : x < 0 := hzero ▸ hneg
    exact (abs_of_neg hlt).symm
  · next hnot =>
    have hle : 0 ≤ x := not_lt.mp fun hlt => hnot (hzero ▸ hlt)
    exact (abs_of_nonneg hle).symm

theorem max_eq (x y : ℝ) : Scalar.max x y = max x y := by
  unfold Scalar.max
  split
  · next hlt => exact (max_eq_right (le_of_lt hlt)).symm
  · next hnot =>
    rw [if_pos (le_refl x)]
    exact (max_eq_left (not_lt.mp hnot)).symm

theorem min_eq (x y : ℝ) : Scalar.min x y = min x y := by
  unfold Scalar.min
  split
  · next hlt => exact (min_eq_right (le_of_lt hlt)).symm
  · next hnot =>
    rw [if_pos (le_refl x)]
    exact (min_eq_left (not_lt.mp hnot)).symm

instance : OrderedScalar ℝ where
  lt_iff _ _ := lt_iff_le_not_ge
  le_trans _ _ _ := le_trans
  le_total x y _ _ := le_total x y

instance : NumberScalar ℝ where
  zero_le_zero := le_refl _
  le_self_of_isFinite x _ := le_refl x

end Toolpath.RealScalar
