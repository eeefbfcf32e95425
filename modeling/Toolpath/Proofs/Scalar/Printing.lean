import Mathlib
import Toolpath.Proofs.Decimal.Value
import Toolpath.Proofs.Scalar.Real

/-!
How scalars are printed. What is finite is printed as a decimal, and the negative of a number below
zero as the decimal of that number without its sign. The doubles are printed so, because a double
and its negative differ in the bit of the sign only.
-/

set_option autoImplicit false

namespace Toolpath

/-- Scalars that are printed as decimals, and as their negatives are but for the sign. -/
class PrintedScalar (α : Type) [Scalar α] : Prop where
  exists_roundTo : ∀ (places : Nat) (x : α), Scalar.isFinite x = true →
    ∃ d, Scalar.roundTo places x = .finite d
  roundTo_neg : ∀ (places : Nat) (x : α), Scalar.isFinite x = true → x < 0.0 →
    ∃ d, Scalar.roundTo places x = .finite d ∧
      Scalar.roundTo places (-x) = .finite { d with negative := !d.negative }
  not_neg_lt : ∀ x : α, x < 0.0 → ¬ -x < 0.0

namespace Scalar

variable {α : Type} [Scalar α] [PrintedScalar α]

theorem exists_coordinateNumeral {x : α} (h : isFinite x = true) :
    ∃ d, coordinateNumeral x = .finite d := by
  unfold coordinateNumeral
  split
  · exact ⟨_, rfl⟩
  · exact PrintedScalar.exists_roundTo 3 x h

theorem coordinateNumeral_neg {x : α} (h : isFinite x = true) (hneg : x < 0.0) :
    ∃ d d', coordinateNumeral x = .finite d ∧ coordinateNumeral (-x) = .finite d' ∧
      d'.value = -d.value := by
  have habs : abs (-x) = abs x := by
    unfold abs
    rw [if_pos hneg, if_neg (PrintedScalar.not_neg_lt x hneg)]
  unfold coordinateNumeral
  rw [habs]
  split
  · exact ⟨_, _, rfl, rfl, by simp [Decimal.value]⟩
  · obtain ⟨d, hd, hd'⟩ := PrintedScalar.roundTo_neg 3 x h hneg
    exact ⟨d, _, hd, hd', d.value_negated⟩

end Scalar

namespace Binary64

open Float.Model (Format UnpackedFloat)
open Float.Model.UnpackedFloat (Sign packComponents pack unpack)

private theorem exists_pack_neg {u : UnpackedFloat} (h : u ≠ .notANumber) :
    ∃ s exponent mantissa,
      pack .binary64 u = packComponents .binary64 s exponent mantissa ∧
      pack .binary64 u.neg = packComponents .binary64 (-s) exponent mantissa := by
  cases u with
  | notANumber => exact absurd rfl h
  | infinity s => exact ⟨s, _, _, rfl, rfl⟩
  | zero s => exact ⟨s, _, _, rfl, rfl⟩
  | finite s m e hm =>
    simp only [UnpackedFloat.neg, pack]
    split_ifs
    · exact ⟨s, _, _, rfl, rfl⟩
    · exact ⟨s, _, _, rfl, rfl⟩
    · exact ⟨s, _, _, rfl, rfl⟩

private theorem unpack_packComponents_neg (s : Sign)
    (exponent : BitVec Format.binary64.exponentBits)
    (mantissa : BitVec Format.binary64.mantissaBitsWithoutImplicit) :
    unpack .binary64 (packComponents .binary64 (-s) exponent mantissa) =
      (unpack .binary64 (packComponents .binary64 s exponent mantissa)).neg := by
  simp only [unpack, UnpackedFloat.unpackSign_packComponents,
    UnpackedFloat.unpackExponent_packComponents, UnpackedFloat.unpackMantissa_packComponents,
    Sign.ofBitVec_toBitVec]
  split_ifs <;> rfl

theorem exists_bits_neg {x : Float} (h : x.toModel.unpack ≠ .notANumber) :
    ∃ s exponent mantissa,
      x.toBits.toBitVec = packComponents .binary64 s exponent mantissa ∧
      (-x).toBits.toBitVec = packComponents .binary64 (-s) exponent mantissa := by
  obtain ⟨s, exponent, mantissa, hpack, hneg⟩ := exists_pack_neg h
  refine ⟨s, exponent, mantissa, ?_, hneg⟩
  rw [← hpack]
  exact (UnpackedFloat.pack_unpack_of_valid x.toModel.valid).symm

theorem unpack_neg {x : Float} (h : x.toModel.unpack ≠ .notANumber) :
    (-x).toModel.unpack = x.toModel.unpack.neg := by
  obtain ⟨s, exponent, mantissa, hx, hneg⟩ := exists_bits_neg h
  have hunpack (y : Float) : y.toModel.unpack = unpack .binary64 y.toBits.toBitVec := rfl
  rw [hunpack, hunpack, hx, hneg, unpack_packComponents_neg]

private theorem toNat_packComponents (s : Sign) (exponent : BitVec Format.binary64.exponentBits)
    (mantissa : BitVec Format.binary64.mantissaBitsWithoutImplicit) :
    (packComponents .binary64 s exponent mantissa).toNat =
      (s.toBitVec.toNat * 2 ^ 11 + exponent.toNat) * 2 ^ 52 + mantissa.toNat := by
  have hexponent : exponent.toNat < 2 ^ 11 := exponent.isLt
  have hmantissa : mantissa.toNat < 2 ^ 52 := mantissa.isLt
  rw [packComponents, BitVec.toNat_append, BitVec.toNat_append,
    ← Nat.shiftLeft_add_eq_or_of_lt hmantissa, ← Nat.shiftLeft_add_eq_or_of_lt hexponent,
    Nat.shiftLeft_eq, Nat.shiftLeft_eq]

theorem parts_of_bits {x : Float} {s : Sign} {exponent : BitVec Format.binary64.exponentBits}
    {mantissa : BitVec Format.binary64.mantissaBitsWithoutImplicit}
    (h : x.toBits.toBitVec = packComponents .binary64 s exponent mantissa)
    (finite : exponent ≠ -1#_) :
    parts x = if exponent.toNat = 0 then .finite ((s == .negative)) mantissa.toNat leastExponent
      else .finite ((s == .negative)) (twoPow 52 + mantissa.toNat)
        (leastExponent + (exponent.toNat - 1 : Nat)) := by
  have hexponent : exponent.toNat < 2048 := exponent.isLt
  have hmantissa : mantissa.toNat < 4503599627370496 := mantissa.isLt
  have hnot : exponent.toNat ≠ 2047 := fun heq => finite (BitVec.eq_of_toNat_eq heq)
  have hbits : x.toBits.toNat =
      (s.toBitVec.toNat * 2048 + exponent.toNat) * 4503599627370496 + mantissa.toNat := by
    have hnat := congrArg BitVec.toNat h
    rw [toNat_packComponents] at hnat
    exact hnat
  have h52 : twoPow 52 = 4503599627370496 := rfl
  have h63 : twoPow 63 = 9223372036854775808 := rfl
  have hbiased : x.toBits.toNat / twoPow 52 % 2048 = exponent.toNat := by
    rw [hbits, h52]
    omega
  have hfraction : x.toBits.toNat % twoPow 52 = mantissa.toNat := by
    rw [hbits, h52]
    omega
  have hsign : decide (twoPow 63 ≤ x.toBits.toNat) = (s == .negative) := by
    rw [hbits, h63]
    cases s with
    | positive =>
      have hpositive : Sign.positive.toBitVec.toNat = 0 := rfl
      refine decide_eq_false ?_
      omega
    | negative =>
      have hnegative : Sign.negative.toBitVec.toNat = 1 := rfl
      refine decide_eq_true ?_
      omega
  unfold parts
  simp only [hbiased, hfraction, hsign, if_neg hnot]

private theorem unpack_of_isFinite {x : Float} (h : Scalar.isFinite x = true) :
    x.toModel.unpack ≠ .notANumber ∧ ∀ s, x.toModel.unpack ≠ .infinity s := by
  have hnumber := NumberScalar.le_self_of_isFinite x h
  have hdiff : x - x ≤ x - x := of_decide_eq_true h
  rw [le_self_iff] at hnumber hdiff
  refine ⟨hnumber, fun s hs => ?_⟩
  have hsub : (x - x).toModel = .pack (.sub .binary64 x.toModel.unpack x.toModel.unpack) := rfl
  rw [hsub, hs] at hdiff
  cases s <;> exact hdiff rfl

private theorem exists_parts_neg {x : Float} (h : Scalar.isFinite x = true) :
    ∃ negative mantissa exponent, parts x = .finite negative mantissa exponent ∧
      parts (-x) = .finite (!negative) mantissa exponent := by
  obtain ⟨hnumber, hfinite⟩ := unpack_of_isFinite h
  obtain ⟨s, exponent, mantissa, hx, hneg⟩ := exists_bits_neg hnumber
  have hexponent : exponent ≠ -1#_ := by
    rintro rfl
    have hunpack : x.toModel.unpack = unpack .binary64 x.toBits.toBitVec := rfl
    rw [hunpack, hx] at hnumber hfinite
    simp only [unpack, UnpackedFloat.unpackSign_packComponents,
      UnpackedFloat.unpackExponent_packComponents, UnpackedFloat.unpackMantissa_packComponents,
      if_true] at hnumber hfinite
    split_ifs at hnumber hfinite
    · exact hfinite _ rfl
    · exact hnumber rfl
  have hsign : (-s == .negative) = !(s == .negative) := by
    cases s <;> rfl
  rw [parts_of_bits hx hexponent, parts_of_bits hneg hexponent, hsign]
  split_ifs
  · exact ⟨_, _, _, rfl, rfl⟩
  · exact ⟨_, _, _, rfl, rfl⟩

private theorem not_neg_lt {x : Float} (h : x < 0.0) : ¬ -x < 0.0 := by
  obtain ⟨hnumber, -, hplace⟩ := (lt_iff_place x 0.0).mp h
  rw [lt_iff_place, unpack_neg hnumber]
  rintro ⟨-, -, hneg⟩
  have hzero : place (0.0 : Float).toModel.unpack = (0, 0, 0) := by decide +kernel
  rw [hzero, placeCompare_eq_lt, isLE_placeCompare, isLE_placeCompare] at hplace hneg
  cases hunpack : x.toModel.unpack with
  | notANumber => exact hnumber hunpack
  | zero s => simp [hunpack, place] at hplace
  | infinity s => cases s <;> simp [hunpack, place, UnpackedFloat.neg] at hplace hneg
  | finite s m e hm => cases s <;> simp [hunpack, place, UnpackedFloat.neg] at hplace hneg

theorem roundTo_of_parts {x : Float} {negative : Bool} {m : Nat} {e : Int}
    (h : parts x = .finite negative m e) (places : Nat) :
    roundTo places x =
      let (n, d) := scaled (m * tenPow places) 1 e
      .finite ⟨negative, roundDiv n d, -(places : Int)⟩ := by
  rw [roundTo, h]

instance : PrintedScalar Float where
  exists_roundTo places x h := by
    obtain ⟨negative, m, e, hx, -⟩ := exists_parts_neg h
    exact ⟨_, roundTo_of_parts hx places⟩
  roundTo_neg places x h _ := by
    obtain ⟨negative, m, e, hx, hneg⟩ := exists_parts_neg h
    exact ⟨_, roundTo_of_parts hx places, roundTo_of_parts hneg places⟩
  not_neg_lt _ := not_neg_lt

end Binary64

instance : PrintedScalar ℝ where
  exists_roundTo _ _ _ := ⟨_, rfl⟩
  roundTo_neg places x _ hneg := by
    have hlt : x < 0 := lt_of_lt_of_eq hneg (by norm_num)
    have hnot : ¬ -x < 0 := by linarith
    refine ⟨_, rfl, ?_⟩
    change RealScalar.roundTo places (-x) = _
    simp [RealScalar.roundTo, hlt, hnot]
  not_neg_lt x h := by
    have hzero : (0.0 : ℝ) = 0 := by norm_num
    rw [hzero] at h ⊢
    linarith

end Toolpath
