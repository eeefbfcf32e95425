import Mathlib
import Toolpath.Proofs.Scalar.Printing

/-!
The numbers that doubles stand for. A finite double is a mantissa of at most 53 bits times a power
of two, with all 53 bits unless the power is the least one; so doubles are ordered as their numbers.
-/

set_option autoImplicit false

namespace Toolpath.Binary64

open Float.Model (Format UnpackedFloat)
open Float.Model.UnpackedFloat (Sign packComponents pack unpack)

/-- The number that an unpacked double stands for, and zero where it stands for none. -/
def exact : UnpackedFloat → ℚ
  | .finite .positive m e _ => m * 2 ^ e
  | .finite .negative m e _ => -(m * 2 ^ e)
  | .zero _ | .infinity _ | .notANumber => 0

/-- The number that a double stands for, and zero where it stands for none. -/
def value (x : Float) : ℚ := exact x.toModel.unpack

/-- The mantissa and the exponent of a double. -/
structure Canonical (m : Nat) (e : Int) : Prop where
  lt : m < 2 ^ 53
  least : -1074 ≤ e
  full : -1074 < e → 2 ^ 52 ≤ m

private theorem toNat_withImplicit (mantissa : BitVec Format.binary64.mantissaBitsWithoutImplicit) :
    (1#1 ++ mantissa).toNat = 2 ^ 52 + mantissa.toNat := by
  rw [BitVec.toNat_append, ← Nat.shiftLeft_add_eq_or_of_lt mantissa.isLt, Nat.shiftLeft_eq]
  rfl

private theorem canonical_of_unpack {b : BitVec Format.binary64.numBits} {s : Sign} {m : Nat}
    {e : Int} {hm : 0 < m} (h : unpack .binary64 b = .finite s m e hm) : Canonical m e := by
  have hbias : (Format.binary64.exponentBias : Int) + Format.binary64.mantissaBitsWithoutImplicit =
      1075 := rfl
  have hbits : (UnpackedFloat.unpackMantissa b).toNat < 2 ^ 52 :=
    (UnpackedFloat.unpackMantissa b).isLt
  unfold unpack at h
  dsimp only at h
  rw [hbias] at h
  split_ifs at h with hspecial hinfinite hleast hzero
  · obtain ⟨-, rfl, rfl⟩ := UnpackedFloat.finite.inj h
    have hexponent : (UnpackedFloat.unpackExponent b).toNat = 0 := by rw [hleast]; rfl
    rw [hexponent]
    exact ⟨by omega, by omega, fun _ => by omega⟩
  · obtain ⟨-, rfl, rfl⟩ := UnpackedFloat.finite.inj h
    have hexponent : (UnpackedFloat.unpackExponent b).toNat ≠ 0 :=
      fun hnone => hleast (BitVec.eq_of_toNat_eq hnone)
    rw [toNat_withImplicit]
    exact ⟨by omega, by omega, fun _ => by omega⟩

section Order

theorem number_of_isFinite {x : Float} (h : x.isFinite = true) :
    x.toModel.unpack ≠ .notANumber := by
  intro hnan
  have hx : x.toModel.unpack.isFinite = true := h
  rw [hnan] at hx
  cases hx

private theorem magnitude_lt_of_lt {m n : Nat} {e f : Int} (h : Canonical m e) (k : Canonical n f)
    (lower : e < f) : (m : ℚ) * 2 ^ e < n * 2 ^ f := by
  have hm : (m : ℚ) < 2 ^ 53 := by exact_mod_cast h.lt
  have hn : (2 : ℚ) ^ 52 ≤ n := by exact_mod_cast k.full (lt_of_le_of_lt h.least lower)
  calc (m : ℚ) * 2 ^ e < 2 ^ 53 * 2 ^ e := by gcongr
    _ = 2 ^ 52 * 2 ^ (e + 1) := by
      rw [zpow_add_one₀ (by norm_num)]
      ring
    _ ≤ 2 ^ 52 * 2 ^ f := by
      gcongr
      · norm_num
      · omega
    _ ≤ n * 2 ^ f := by gcongr

private theorem magnitude_le_iff {m n : Nat} {e f : Int} (h : Canonical m e) (k : Canonical n f) :
    (m : ℚ) * 2 ^ e ≤ n * 2 ^ f ↔ e < f ∨ e = f ∧ m ≤ n := by
  rcases lt_trichotomy e f with hef | rfl | hfe
  · simp [hef, le_of_lt (magnitude_lt_of_lt h k hef)]
  · have hpos : (0 : ℚ) < 2 ^ e := by positivity
    simp [mul_le_mul_iff_left₀ hpos]
  · simp [not_le.mpr (magnitude_lt_of_lt k h hfe), not_lt.mpr (le_of_lt hfe), ne_of_gt hfe]

private theorem isLE_place_iff {u v : UnpackedFloat} (hu : u.isFinite = true)
    (hv : v.isFinite = true) (h : ∀ s m e hm, u = .finite s m e hm → Canonical m e)
    (k : ∀ s m e hm, v = .finite s m e hm → Canonical m e) :
    (placeCompare (place u) (place v)).isLE = true ↔ exact u ≤ exact v := by
  have hpos {m : Nat} {e : Int} (hm : 0 < m) : (0 : ℚ) < m * 2 ^ e := by positivity
  rw [isLE_placeCompare]
  cases u with
  | notANumber | infinity => cases hu
  | zero s =>
    cases v with
    | notANumber | infinity => cases hv
    | zero t => simp [place, exact]
    | finite t n f hn =>
      have hn := hpos (e := f) hn
      cases t
      · simp [place, exact, hn]
      · simp [place, exact, le_of_lt hn]
  | finite s m e hm =>
    have hc := h s m e hm rfl
    have hm := hpos (e := e) hm
    cases v with
    | notANumber | infinity => cases hv
    | zero t =>
      cases s
      · simp [place, exact, le_of_lt hm]
      · simp [place, exact, hm]
    | finite t n f hn =>
      have hd := k t n f hn rfl
      have hn := hpos (e := f) hn
      cases s <;> cases t
      · rw [exact, exact, neg_le_neg_iff, magnitude_le_iff hd hc]
        simp only [place, lt_self_iff_false, true_and, false_or]
        omega
      · have hle : -((m : ℚ) * 2 ^ e) ≤ n * 2 ^ f := by linarith
        simp [place, exact, hle]
      · have hnot : ¬ (m : ℚ) * 2 ^ e ≤ -(n * 2 ^ f) := by linarith
        simp [place, exact, hnot]
      · rw [exact, exact, magnitude_le_iff hc hd]
        simp only [place, lt_self_iff_false, true_and, false_or]
        omega

private theorem le_iff_value {x y : Float} (hx : x.isFinite = true) (hy : y.isFinite = true) :
    x ≤ y ↔ value x ≤ value y := by
  rw [le_iff_place, isLE_place_iff hx hy (fun _ _ _ _ => canonical_of_unpack)
    (fun _ _ _ _ => canonical_of_unpack)]
  exact ⟨fun h => h.2.2, fun h => ⟨number_of_isFinite hx, number_of_isFinite hy, h⟩⟩

theorem lt_iff_value {x y : Float} (hx : x.isFinite = true) (hy : y.isFinite = true) :
    x < y ↔ value x < value y := by
  rw [OrderedScalar.lt_iff, le_iff_value hx hy, le_iff_value hy hx, lt_iff_le_not_ge]

end Order

section Signs

private theorem exact_neg (u : UnpackedFloat) : exact u.neg = -exact u := by
  cases u with
  | notANumber | infinity | zero => simp [exact, UnpackedFloat.neg]
  | finite s m e hm =>
    cases s
    · exact (neg_neg _).symm
    · rfl

private theorem value_neg {x : Float} (h : x.isFinite = true) : value (-x) = -value x := by
  rw [value, unpack_neg (number_of_isFinite h), exact_neg, value]

private theorem isFinite_neg {x : Float} (h : x.isFinite = true) : (-x).isFinite = true := by
  have hx : x.toModel.unpack.isFinite = true := h
  change (-x).toModel.unpack.isFinite = true
  rw [unpack_neg (number_of_isFinite h)]
  cases hu : x.toModel.unpack with
  | notANumber | infinity => simp [hu, UnpackedFloat.isFinite] at hx
  | zero | finite => rfl

private theorem value_zero : value 0.0 = 0 := by
  have hplace : place (0.0 : Float).toModel.unpack = (0, 0, 0) := by decide +kernel
  rw [value]
  cases hu : (0.0 : Float).toModel.unpack with
  | notANumber | infinity | zero => rfl
  | finite s => cases s <;> simp [hu, place] at hplace

theorem value_abs {x : Float} (h : x.isFinite = true) :
    (Scalar.abs x).isFinite = true ∧ value (Scalar.abs x) = |value x| := by
  have hzero : (0.0 : Float).isFinite = true := by decide +kernel
  unfold Scalar.abs
  split
  · next hneg =>
    rw [lt_iff_value h hzero, value_zero] at hneg
    exact ⟨isFinite_neg h, by rw [value_neg h, abs_of_neg hneg]⟩
  · next hnot =>
    rw [lt_iff_value h hzero, value_zero, not_lt] at hnot
    exact ⟨h, (abs_of_nonneg hnot).symm⟩

end Signs

def ofParts (negative : Bool) (m : Nat) (e : Int) : ℚ := (if negative then -1 else 1) * (m * 2 ^ e)

theorem abs_ofParts (negative : Bool) (m : Nat) (e : Int) :
    |ofParts negative m e| = m * 2 ^ e := by
  cases negative <;> simp [ofParts]

private theorem exact_finite (s : Sign) (m : Nat) (e : Int) (hm : 0 < m) :
    exact (.finite s m e hm) = ofParts (s == .negative) m e := by
  cases s
  · exact (neg_one_mul _).symm
  · exact (one_mul _).symm

theorem exists_parts {x : Float} (h : x.isFinite = true) :
    ∃ negative m e, parts x = .finite negative m e ∧ m < 2 ^ 53 ∧ value x = ofParts negative m e := by
  obtain ⟨s, exponent, mantissa, hx, -⟩ := exists_bits_neg (number_of_isFinite h)
  have hunpack : x.toModel.unpack = unpack .binary64 x.toBits.toBitVec := rfl
  have hfinite : x.toModel.unpack.isFinite = true := h
  have hbias : (Format.binary64.exponentBias : Int) + Format.binary64.mantissaBitsWithoutImplicit =
      1075 := rfl
  have hmantissa : mantissa.toNat < 2 ^ 52 := mantissa.isLt
  rw [hunpack, hx] at hfinite
  rw [value, hunpack, hx]
  simp only [unpack, UnpackedFloat.unpackSign_packComponents,
    UnpackedFloat.unpackExponent_packComponents, UnpackedFloat.unpackMantissa_packComponents,
    UnpackedFloat.Sign.ofBitVec_toBitVec, hbias] at hfinite ⊢
  by_cases hspecial : exponent = -1#_
  · simp only [if_pos hspecial] at hfinite
    split_ifs at hfinite <;> cases hfinite
  rw [parts_of_bits hx hspecial, if_neg hspecial]
  by_cases hleast : exponent = 0#_
  · have hnone : exponent.toNat = 0 := by rw [hleast]; rfl
    rw [if_pos hnone, if_pos hleast]
    refine ⟨_, _, _, rfl, by omega, ?_⟩
    split_ifs with hzero
    · simp [hzero, exact, ofParts]
    · rw [exact_finite, hnone]
      rfl
  · have hsome : exponent.toNat ≠ 0 := fun hnone => hleast (BitVec.eq_of_toNat_eq hnone)
    have h52 : twoPow 52 = 2 ^ 52 := rfl
    have hexponent : leastExponent + ((exponent.toNat - 1 : Nat) : Int) =
        (exponent.toNat : Int) - 1075 := by
      rw [leastExponent]
      omega
    rw [if_neg hsome, if_neg hleast, exact_finite, toNat_withImplicit, hexponent, h52]
    exact ⟨_, _, _, rfl, by omega, rfl⟩

end Toolpath.Binary64
