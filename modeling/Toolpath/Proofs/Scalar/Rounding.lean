import Toolpath.Proofs.Scalar.Printing

/-!
How far a printed real number is from the number itself: half a unit of its last place at most. So
two coordinates that are written with the same digits are a thousandth apart at most.
-/

set_option autoImplicit false

namespace Toolpath

/-- The number that stands where something is printed; where that is no number, zero. -/
noncomputable def Numeral.real (n : Numeral) : ℝ := (n.value?.getD 0 : ℚ)

theorem Numeral.real_eq {n : Numeral} {v : ℚ} (h : n.value? = some v) : n.real = v := by
  rw [Numeral.real, h, Option.getD_some]

namespace RealScalar

private theorem abs_roundNat_sub_le {x : ℝ} (h : 0 ≤ x) : |(roundNat x : ℝ) - x| ≤ 1 / 2 := by
  have hbelow : (⌊x⌋₊ : ℝ) ≤ x := Nat.floor_le h
  have habove : x < ⌊x⌋₊ + 1 := Nat.lt_floor_add_one x
  unfold roundNat
  dsimp only
  split
  · next hdown =>
    have hhalf : x - ⌊x⌋₊ ≤ 1 / 2 := by
      rcases hdown with hlt | ⟨heq, -⟩
      · exact le_of_lt hlt
      · exact le_of_eq heq
    rw [abs_le]
    constructor <;> linarith
  · next hup =>
    have hhalf : 1 / 2 ≤ x - ⌊x⌋₊ := not_lt.mp fun hlt => hup (.inl hlt)
    rw [abs_le]
    push_cast
    constructor <;> linarith

private theorem roundNat_eq {x : ℝ} {n : Nat} (h : |x - n| < 1 / 2) : roundNat x = n := by
  rw [abs_lt] at h
  unfold roundNat
  dsimp only
  by_cases hle : (n : ℝ) ≤ x
  · have hfloor : ⌊x⌋₊ = n := by
      rw [Nat.floor_eq_iff (le_trans (Nat.cast_nonneg n) hle)]
      constructor <;> linarith
    rw [hfloor, if_pos (Or.inl h.2)]
  · cases n with
    | zero =>
      have hfloor : ⌊x⌋₊ = 0 := by
        apply Nat.floor_of_nonpos
        rw [Nat.cast_zero] at hle
        exact le_of_not_ge hle
      rw [hfloor, if_pos (Or.inl h.2)]
    | succ n =>
      -- Just below a number the one before it is more than a half away.
      push_cast at h hle
      have hnonneg : (0 : ℝ) ≤ n := Nat.cast_nonneg n
      have hfloor : ⌊x⌋₊ = n := by
        rw [Nat.floor_eq_iff (by linarith)]
        constructor <;> linarith
      have hhalf : 1 / 2 < x - n := by linarith
      rw [hfloor, if_neg]
      rintro (hlt | ⟨heq, -⟩)
      · exact absurd hlt (not_lt.mpr (le_of_lt hhalf))
      · exact absurd heq (ne_of_gt hhalf)

theorem value?_roundTo (places : Nat) (x : ℝ) :
    ∃ v : ℚ, (Scalar.roundTo places x).value? = some v ∧
      |(v : ℝ) - x| ≤ 1 / 2 * (10 : ℝ) ^ (-(places : Int)) := by
  let n := roundNat (|x| * 10 ^ places)
  let unit : ℝ := (10 : ℝ) ^ (-(places : Int))
  refine ⟨(⟨decide (x < 0), n, -places⟩ : Decimal).value, rfl, ?_⟩
  have hunit : 0 < unit := by positivity
  have hscale : (10 : ℝ) ^ places * unit = 1 := by
    show (10 : ℝ) ^ places * (10 : ℝ) ^ (-(places : Int)) = 1
    rw [zpow_neg, zpow_natCast]
    exact mul_inv_cancel₀ (by positivity)
  have hround : |(n : ℝ) - |x| * 10 ^ places| ≤ 1 / 2 := abs_roundNat_sub_le (by positivity)
  have hsize : |(n : ℝ) * unit - (|x|)| ≤ 1 / 2 * unit := by
    have heq : (n : ℝ) * unit - |x| = (n - |x| * 10 ^ places) * unit := by
      rw [sub_mul, mul_assoc, hscale, mul_one]
    rw [heq, abs_mul, abs_of_pos hunit]
    exact mul_le_mul_of_nonneg_right hround (le_of_lt hunit)
  -- The sign is that of the number, so only the sizes differ.
  rw [Decimal.value]
  push_cast
  by_cases hneg : x < 0
  · have hvalue : (-1 : ℝ) * n * unit - x = -(n * unit - |x|) := by
      rw [abs_of_neg hneg]
      ring
    simp only [hneg, decide_true, if_true]
    push_cast
    show |(-1 : ℝ) * n * unit - x| ≤ _
    rwa [hvalue, abs_neg]
  · have hvalue : (1 : ℝ) * n * unit - x = n * unit - |x| := by
      rw [abs_of_nonneg (not_lt.mp hneg)]
      ring
    simp only [hneg, decide_false]
    push_cast
    show |(1 : ℝ) * n * unit - x| ≤ _
    rwa [hvalue]

theorem value?_coordinateNumeral (x : ℝ) :
    ∃ v : ℚ, (Scalar.coordinateNumeral x).value? = some v ∧ |(v : ℝ) - x| ≤ 1 / 2000 := by
  unfold Scalar.coordinateNumeral
  split
  · next hsmall =>
    refine ⟨0, by simp [Numeral.value?, Decimal.value], ?_⟩
    have hlt : |x| < (0.0005 : ℝ) := by rwa [abs_eq] at hsmall
    rw [Rat.cast_zero, zero_sub, abs_neg]
    norm_num at hlt ⊢
    exact le_of_lt hlt
  · obtain ⟨v, hv, hclose⟩ := value?_roundTo 3 x
    refine ⟨v, hv, le_trans hclose ?_⟩
    norm_num

theorem abs_real_roundTo_sub_le (places : Nat) (x : ℝ) :
    |(Scalar.roundTo places x).real - x| ≤ 1 / 2 * (10 : ℝ) ^ (-(places : Int)) := by
  obtain ⟨v, hv, hclose⟩ := value?_roundTo places x
  rwa [Numeral.real_eq hv]

theorem abs_real_coordinateNumeral_sub_le (x : ℝ) :
    |(Scalar.coordinateNumeral x).real - x| ≤ 1 / 2000 := by
  obtain ⟨v, hv, hclose⟩ := value?_coordinateNumeral x
  rwa [Numeral.real_eq hv]

theorem coordinateNumeral_eq {x : ℝ} {n : Nat} (hn : 0 < n) (h : |x - n / 1000| < 1 / 2000) :
    Scalar.coordinateNumeral x = .finite ⟨false, n, -3⟩ := by
  have hone : (1 : ℝ) ≤ n := by exact_mod_cast hn
  rw [abs_lt] at h
  have hpos : 1 / 2000 < x := by linarith
  have hnonneg : 0 ≤ x := by linarith
  have hlarge : ¬ Scalar.abs x < 0.0005 := by
    rw [abs_eq, abs_of_nonneg hnonneg]
    norm_num
    linarith
  have hround : roundNat (|x| * 10 ^ 3) = n := by
    apply roundNat_eq
    rw [abs_of_nonneg hnonneg, abs_lt]
    constructor <;> linarith
  rw [Scalar.coordinateNumeral, if_neg hlarge]
  show Numeral.finite ⟨decide (x < 0), roundNat (|x| * 10 ^ 3), _⟩ = _
  rw [hround, decide_eq_false (not_lt.mpr hnonneg)]
  rfl

theorem abs_sub_le_of_coordinate_eq {x y : ℝ} (h : Scalar.coordinate x = Scalar.coordinate y) :
    |x - y| ≤ 1 / 1000 := by
  obtain ⟨v, hv, hx⟩ := value?_coordinateNumeral x
  obtain ⟨w, hw, hy⟩ := value?_coordinateNumeral y
  have hsame : v = w := by
    have htexts : (Scalar.coordinateNumeral x).text = (Scalar.coordinateNumeral y).text := h
    have hread := Numeral.number?_text hv
    rw [htexts, Numeral.number?_text hw] at hread
    exact (Option.some.inj hread).symm
  rw [hsame, abs_le] at hx
  rw [abs_le] at hy ⊢
  constructor <;> linarith

end RealScalar

end Toolpath
