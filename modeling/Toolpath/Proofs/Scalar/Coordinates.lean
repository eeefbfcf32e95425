import Toolpath.Proofs.Scalar.Doubles

/-!
How doubles are printed as coordinates. A double below the one that is taken for half a thousandth
is printed as zero without a sign, and any other is rounded to three places. The two meet without a
gap: the double that is taken for half a thousandth is a little more than that, and the one before
it a little less, so what is rounded is not rounded to zero and what is printed as zero is close to
it.
-/

set_option autoImplicit false

namespace Toolpath

namespace Decimal

/-- The text of a number with so many places. It has a sign only if one of its digits is not zero.
-/
def IsFixed (places : Nat) (text : List Char) : Prop :=
  ∃ sign whole fraction, text = sign ++ whole ++ '.' :: fraction ∧
    (sign = [] ∨ sign = ['-'] ∧ ∃ c ∈ whole ++ fraction, c ≠ '0') ∧
    whole ≠ [] ∧ Digits whole ∧ Digits fraction ∧ fraction.length = places

private theorem exists_digit_ne_zero {m : Nat} (h : m ≠ 0) (k : Nat) :
    ∃ c ∈ Nat.toDigits 10 (m / tenPow (k + 1)) ++ padded (k + 1) (m % tenPow (k + 1)), c ≠ '0' := by
  by_contra hall
  push Not at hall
  have hnumber := ofDigitChars_places m k
  rw [List.eq_replicate_of_mem hall, Nat.ofDigitChars_replicate_zero, Nat.mul_zero] at hnumber
  exact h hnumber.symm

private theorem isFixed_text {negative : Bool} {m : Nat} (h : negative = true → m ≠ 0) (k : Nat) :
    IsFixed (k + 1) (text ⟨negative, m, .negSucc k⟩) := by
  refine ⟨if negative then ['-'] else [], Nat.toDigits 10 (m / tenPow (k + 1)),
    padded (k + 1) (m % tenPow (k + 1)), ?_, ?_, Nat.toDigits_ne_nil, digits_toDigits _,
    digits_padded _ _, length_places m k⟩
  · cases negative <;> rfl
  · cases negative with
    | false => exact Or.inl rfl
    | true => exact Or.inr ⟨rfl, exists_digit_ne_zero (h rfl) k⟩

end Decimal

namespace Binary64

private theorem roundDiv_bounds (num : Nat) {den : Nat} (h : 0 < den) :
    2 * (den * roundDiv num den) ≤ 2 * num + den ∧ 2 * num ≤ 2 * (den * roundDiv num den) + den := by
  have hsplit := Nat.div_add_mod num den
  have hrest := Nat.mod_lt num h
  unfold roundDiv
  dsimp only
  split_ifs
  · omega
  · rw [Nat.mul_add]
    omega
  · omega
  · rw [Nat.mul_add]
    omega

private theorem abs_roundDiv_sub_le (num : Nat) {den : Nat} (h : 0 < den) :
    |(roundDiv num den : ℚ) - num / den| ≤ 1 / 2 := by
  have hden : (0 : ℚ) < den := by exact_mod_cast h
  obtain ⟨hlow, hhigh⟩ := roundDiv_bounds num h
  have hlow : 2 * ((den : ℚ) * roundDiv num den) ≤ 2 * num + den := by exact_mod_cast hlow
  have hhigh : 2 * (num : ℚ) ≤ 2 * (den * roundDiv num den) + den := by exact_mod_cast hhigh
  have hquotient : (num : ℚ) / den * den = num := div_mul_cancel₀ _ (ne_of_gt hden)
  rw [abs_le]
  constructor <;> nlinarith

private theorem cast_twoPow (n : Nat) : (twoPow n : ℚ) = 2 ^ n := by
  show ((Nat.pow 2 n : Nat) : ℚ) = 2 ^ n
  exact_mod_cast rfl

private theorem cast_tenPow (n : Nat) : (tenPow n : ℚ) = 10 ^ n := by
  show ((Nat.pow 10 n : Nat) : ℚ) = 10 ^ n
  exact_mod_cast rfl

private theorem scaled_eq (num : Nat) (k : Int) :
    0 < (scaled num 1 k).2 ∧ ((scaled num 1 k).1 : ℚ) / (scaled num 1 k).2 = num * 2 ^ k := by
  unfold scaled
  split
  · next hk =>
    obtain ⟨n, rfl⟩ := Int.eq_ofNat_of_zero_le hk
    exact ⟨Nat.one_pos, by simp [cast_twoPow]⟩
  · next hk =>
    obtain ⟨n, rfl⟩ : ∃ n : Nat, k = -n := ⟨(-k).toNat, by omega⟩
    refine ⟨by simpa using twoPow_pos _, ?_⟩
    simp [cast_twoPow, div_eq_mul_inv]

private theorem exists_roundTo {x : Float} (h : x.isFinite = true) (places : Nat) :
    ∃ negative m e q, Scalar.roundTo places x = .finite ⟨negative, q, -(places : Int)⟩ ∧
      value x = ofParts negative m e ∧ |(q : ℚ) - m * 2 ^ e * 10 ^ places| ≤ 1 / 2 := by
  obtain ⟨negative, m, e, hparts, -, hvalue⟩ := exists_parts h
  obtain ⟨hden, hquotient⟩ := scaled_eq (m * tenPow places) e
  refine ⟨negative, m, e, _, roundTo_of_parts hparts places, hvalue, ?_⟩
  have hround := abs_roundDiv_sub_le (scaled (m * tenPow places) 1 e).1 hden
  have hsize : ((m * tenPow places : Nat) : ℚ) * 2 ^ e = m * 2 ^ e * 10 ^ places := by
    push_cast
    rw [cast_tenPow]
    ring
  rwa [hquotient, hsize] at hround

section Limit

private theorem value_limit : (0.0005 : Float).isFinite = true ∧
    value 0.0005 = 4611686018427388 * 2 ^ (-63 : Int) := by
  have hplace : place (0.0005 : Float).toModel.unpack = (1, -63, 4611686018427388) := by
    decide +kernel
  have hfinite : (0.0005 : Float).isFinite = true := by decide +kernel
  refine ⟨hfinite, ?_⟩
  rw [value]
  cases hu : (0.0005 : Float).toModel.unpack with
  | notANumber => exact absurd hu (number_of_isFinite hfinite)
  | infinity s => cases s <;> simp [hu, place] at hplace
  | zero s => simp [hu, place] at hplace
  | finite s m e hm =>
    cases s with
    | negative => simp [hu, place] at hplace
    | positive =>
      rw [hu] at hplace
      obtain ⟨-, rfl, hmantissa⟩ : 1 = 1 ∧ e = -63 ∧ (m : Int) = 4611686018427388 := by
        simpa [place] using hplace
      obtain rfl : m = 4611686018427388 := by omega
      norm_num [exact]

private theorem abs_value_le_of_small {x : Float} (h : x.isFinite = true)
    (small : Scalar.abs x < 0.0005) :
    |value x| ≤ 1 / 2000 := by
  obtain ⟨hfinite, hvalue⟩ := value_abs h
  obtain ⟨hlimit, hlimitValue⟩ := value_limit
  obtain ⟨negative, m, e, -, hm, hparts⟩ := exists_parts h
  have hsize : |value x| = m * 2 ^ e := by rw [hparts, abs_ofParts]
  rw [lt_iff_value hfinite hlimit, hvalue, hlimitValue, hsize] at small
  rw [hsize]
  by_cases he : e < -63
  · have hm : (m : ℚ) ≤ 2 ^ 53 := by exact_mod_cast le_of_lt hm
    calc (m : ℚ) * 2 ^ e ≤ 2 ^ 53 * 2 ^ (-64 : Int) := by
          gcongr
          · norm_num
          · omega
      _ ≤ 1 / 2000 := by norm_num
  · obtain ⟨n, rfl⟩ : ∃ n : Nat, e = n + -63 := ⟨(e + 63).toNat, by omega⟩
    rw [zpow_add₀ two_ne_zero, ← mul_assoc, zpow_natCast] at small ⊢
    have hbelow : (m : ℚ) * 2 ^ n < 4611686018427388 := lt_of_mul_lt_mul_right small (by positivity)
    have hbelow : m * 2 ^ n ≤ 4611686018427387 := by
      have hnat : m * 2 ^ n < 4611686018427388 := by exact_mod_cast hbelow
      omega
    have hbelow : (m : ℚ) * 2 ^ n ≤ 4611686018427387 := by exact_mod_cast hbelow
    calc (m : ℚ) * 2 ^ n * 2 ^ (-63 : Int) ≤ 4611686018427387 * 2 ^ (-63 : Int) := by gcongr
      _ ≤ 1 / 2000 := by norm_num

private theorem lt_abs_value_of_not_small {x : Float} (h : x.isFinite = true)
    (large : ¬ Scalar.abs x < 0.0005) : 1 / 2000 < |value x| := by
  obtain ⟨hfinite, hvalue⟩ := value_abs h
  obtain ⟨hlimit, hlimitValue⟩ := value_limit
  rw [lt_iff_value hfinite hlimit, hvalue, hlimitValue, not_lt] at large
  refine lt_of_lt_of_le ?_ large
  norm_num

end Limit

private theorem exists_coordinateNumeral {x : Float} (h : x.isFinite = true) :
    ∃ negative q, Scalar.coordinateNumeral x = .finite ⟨negative, q, -3⟩ ∧
      (negative = true → q ≠ 0) ∧
      |Decimal.value ⟨negative, q, -3⟩ - value x| ≤ 1 / 2000 := by
  unfold Scalar.coordinateNumeral
  split
  · next hsmall =>
    refine ⟨false, 0, rfl, by simp, ?_⟩
    simpa [Decimal.value] using abs_value_le_of_small h hsmall
  · next hlarge =>
    obtain ⟨negative, m, e, q, hround, hvalue, hclose⟩ := exists_roundTo h 3
    have hlarge := lt_abs_value_of_not_small h hlarge
    rw [hvalue, abs_ofParts] at hlarge
    rw [abs_le] at hclose
    refine ⟨negative, q, hround, fun _ hzero => ?_, ?_⟩
    · rw [hzero] at hclose
      push_cast at hclose
      linarith
    · have hplaces : |(q : ℚ) * 10 ^ (-3 : Int) - m * 2 ^ e| ≤ 1 / 2000 := by
        have hten : (10 : ℚ) ^ (-3 : Int) = 1 / 1000 := by norm_num
        rw [hten, abs_le]
        constructor <;> linarith
      rw [Decimal.value, hvalue, ofParts, mul_assoc, ← mul_sub, abs_mul]
      cases negative <;> simpa using hplaces

theorem exists_number?_coordinate {x : Float} (h : x.isFinite = true) :
    ∃ v, Decimal.number? (Scalar.coordinate x).toList = some v ∧ |v - value x| ≤ 1 / 2000 := by
  obtain ⟨negative, q, hnumeral, -, hclose⟩ := exists_coordinateNumeral h
  refine ⟨_, ?_, hclose⟩
  rw [Scalar.coordinate, hnumeral]
  exact Numeral.number?_text rfl

/-- A coordinate is written with three places and no sign on a zero, and is read as a number that is
no more than half a thousandth from the exact value of the double. -/
theorem coordinate_fixed (x : Float) (h : x.isFinite = true) :
    Decimal.IsFixed 3 (Scalar.coordinate x).toList ∧
      ∃ v, Decimal.number? (Scalar.coordinate x).toList = some v ∧ |v - value x| ≤ 1 / 2000 := by
  obtain ⟨negative, q, hnumeral, hsign, -⟩ := exists_coordinateNumeral h
  refine ⟨?_, exists_number?_coordinate h⟩
  rw [Scalar.coordinate, hnumeral, Numeral.text, Numeral.textBy, String.toList_ofList]
  exact Decimal.isFixed_text hsign 2

/-- The first double below zero that is not printed as zero keeps its sign. -/
theorem coordinate_fixed_limit :
    Scalar.coordinate (-0.0005 : Float) = "-0.001" ∧
      Decimal.IsFixed 3 (Scalar.coordinate (-0.0005 : Float)).toList ∧
      ∃ v, Decimal.number? (Scalar.coordinate (-0.0005 : Float)).toList = some v ∧
        |v - value (-0.0005)| ≤ 1 / 2000 :=
  ⟨by decide +kernel, coordinate_fixed (-0.0005) (by decide +kernel)⟩

end Binary64

end Toolpath
