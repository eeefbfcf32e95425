import Mathlib.Order.Compare
import Mathlib.Order.Defs.LinearOrder
import Mathlib.Tactic.Tauto
import Toolpath.Binary64

/-!
The order of scalars. Values that are comparable with themselves are numbers, and the numbers are
totally ordered. The doubles are such an order: every double that is a number has a rank, by its
sign and then by its exponent and mantissa, and is compared by it.
-/

set_option autoImplicit false

namespace Toolpath

/-- Scalars whose numbers are totally ordered. -/
class OrderedScalar (α : Type) [Scalar α] : Prop where
  lt_iff : ∀ x y : α, x < y ↔ x ≤ y ∧ ¬ y ≤ x
  le_trans : ∀ x y z : α, x ≤ y → y ≤ z → x ≤ z
  le_total : ∀ x y : α, x ≤ x → y ≤ y → x ≤ y ∨ y ≤ x

namespace OrderedScalar

variable {α : Type} [Scalar α] [OrderedScalar α]

theorem le_of_lt {x y : α} (h : x < y) : x ≤ y := ((lt_iff x y).mp h).1

theorem le_of_not_lt {x y : α} (hx : x ≤ x) (hy : y ≤ y) (h : ¬ x < y) : y ≤ x := by
  rcases le_total x y hx hy with hle | hle
  · by_contra hnot
    exact h ((lt_iff x y).mpr ⟨hle, hnot⟩)
  · exact hle

end OrderedScalar

/-- Ordered scalars that are equal where neither is the greater one. -/
class EquatedScalar (α : Type) [Scalar α] : Prop extends OrderedScalar α where
  beq_iff : ∀ x y : α, (x == y) = true ↔ x ≤ y ∧ y ≤ x

namespace EquatedScalar

variable {α : Type} [Scalar α] [EquatedScalar α]

theorem beq_symm {x y : α} (h : (x == y) = true) : (y == x) = true := by
  rw [beq_iff] at h ⊢
  exact h.symm

/-- What is no number is not even equal to itself, so equality is an equivalence in part only. -/
theorem beq_trans {x y z : α} (hxy : (x == y) = true) (hyz : (y == z) = true) :
    (x == z) = true := by
  rw [beq_iff] at hxy hyz ⊢
  exact ⟨OrderedScalar.le_trans x y z hxy.1 hyz.1, OrderedScalar.le_trans z y x hyz.2 hxy.2⟩

end EquatedScalar

/-- Ordered scalars where zero and all that is finite are numbers. -/
class NumberScalar (α : Type) [Scalar α] : Prop extends OrderedScalar α where
  zero_le_zero : (0.0 : α) ≤ 0.0
  le_self_of_isFinite : ∀ x : α, Scalar.isFinite x = true → x ≤ x

namespace Binary64

open Float.Model (UnpackedFloat)
open Float.Model.UnpackedFloat (Sign)

/-- Where a double stands among all that are numbers: its sign with its kind, its exponent and its
mantissa, the latter two turned round for negative numbers. -/
def place : UnpackedFloat → Int × Int × Int
  | .infinity .negative => (-2, 0, 0)
  | .finite .negative m e _ => (-1, -e, -m)
  | .zero _ => (0, 0, 0)
  | .finite .positive m e _ => (1, e, m)
  | .infinity .positive => (2, 0, 0)
  | .notANumber => (3, 0, 0)

/-- Comparison of places, first by sign and kind, then by exponent, then by mantissa. -/
def placeCompare (p q : Int × Int × Int) : Ordering :=
  (compare p.1 q.1).then ((compare p.2.1 q.2.1).then (compare p.2.2 q.2.2))

private theorem compare_int (a b : Int) :
    compare a b = if a < b then .lt else if a = b then .eq else .gt := rfl

private theorem compare_cast (m n : Nat) : compare (m : Int) (n : Int) = compare m n := by
  rw [compare_int, Nat.compare_eq_ite_lt]
  split_ifs <;> first | rfl | omega

private theorem compare_neg (a b : Int) : compare (-a) (-b) = (compare a b).swap := by
  rw [compare_int, compare_int]
  split_ifs <;> first | rfl | omega

private theorem compare_eq_placeCompare {x y : UnpackedFloat} (hx : x ≠ .notANumber)
    (hy : y ≠ .notANumber) : x.compare y = some (placeCompare (place x) (place y)) := by
  cases x with
  | notANumber => exact absurd rfl hx
  | infinity s =>
    cases y with
    | notANumber => exact absurd rfl hy
    | infinity t => cases s <;> cases t <;> rfl
    | zero t => cases s <;> rfl
    | finite t m e hm => cases s <;> cases t <;> rfl
  | zero s =>
    cases y with
    | notANumber => exact absurd rfl hy
    | infinity t => cases t <;> rfl
    | zero t => rfl
    | finite t m e hm => cases t <;> rfl
  | finite s m e hm =>
    cases y with
    | notANumber => exact absurd rfl hy
    | infinity t => cases s <;> cases t <;> rfl
    | zero t => cases s <;> rfl
    | finite t n f hn =>
      cases s <;> cases t
      · change some ((compare e f).then (compare m n)).swap =
          some ((compare (-e) (-f)).then (compare (-(m : Int)) (-(n : Int))))
        rw [compare_neg, compare_neg, compare_cast, Ordering.swap_then]
      · rfl
      · rfl
      · change some ((compare e f).then (compare m n)) =
          some ((compare e f).then (compare (m : Int) (n : Int)))
        rw [compare_cast]

theorem isLE_placeCompare (p q : Int × Int × Int) :
    (placeCompare p q).isLE = true ↔
      p.1 < q.1 ∨ p.1 = q.1 ∧ (p.2.1 < q.2.1 ∨ p.2.1 = q.2.1 ∧ p.2.2 ≤ q.2.2) := by
  unfold placeCompare
  simp only [compare_int]
  split_ifs <;> simp <;> omega

theorem placeCompare_eq_lt (p q : Int × Int × Int) :
    placeCompare p q = .lt ↔ (placeCompare p q).isLE = true ∧ ¬ (placeCompare q p).isLE = true := by
  rw [isLE_placeCompare, isLE_placeCompare]
  unfold placeCompare
  simp only [compare_int]
  split_ifs <;> simp <;> omega

private theorem placeCompare_eq_eq (p q : Int × Int × Int) :
    placeCompare p q = .eq ↔ (placeCompare p q).isLE = true ∧ (placeCompare q p).isLE = true := by
  rw [isLE_placeCompare, isLE_placeCompare]
  unfold placeCompare
  simp only [compare_int]
  split_ifs <;> simp <;> omega

private theorem compare_eq_none {x y : UnpackedFloat} (h : x = .notANumber ∨ y = .notANumber) :
    x.compare y = none := by
  rcases h with rfl | rfl
  · rfl
  · cases x with
    | infinity s => cases s <;> rfl
    | finite s m e hm => cases s <;> rfl
    | _ => rfl

/-- Only numbers are comparable, and they are compared by their places. -/
theorem le_iff_place (x y : Float) :
    x ≤ y ↔ x.toModel.unpack ≠ .notANumber ∧ y.toModel.unpack ≠ .notANumber ∧
      (placeCompare (place x.toModel.unpack) (place y.toModel.unpack)).isLE = true := by
  have hle : x ≤ y ↔
      (x.toModel.unpack.compare y.toModel.unpack).any (·.isLE) = true := by
    change decide (x.toModel ≤ y.toModel) = true ↔ _
    rw [decide_eq_true_iff]
    rfl
  by_cases h : x.toModel.unpack = .notANumber ∨ y.toModel.unpack = .notANumber
  · rw [hle, compare_eq_none h]
    simp only [Option.any_none, Bool.false_eq_true, false_iff]
    tauto
  · obtain ⟨hx, hy⟩ := not_or.mp h
    rw [hle, compare_eq_placeCompare hx hy, Option.any_some]
    tauto

theorem lt_iff_place (x y : Float) :
    x < y ↔ x.toModel.unpack ≠ .notANumber ∧ y.toModel.unpack ≠ .notANumber ∧
      placeCompare (place x.toModel.unpack) (place y.toModel.unpack) = .lt := by
  have hlt : x < y ↔ (x.toModel.unpack.compare y.toModel.unpack == some .lt) = true := by
    change decide (x.toModel < y.toModel) = true ↔ _
    rw [decide_eq_true_iff]
    rfl
  by_cases h : x.toModel.unpack = .notANumber ∨ y.toModel.unpack = .notANumber
  · rw [hlt, compare_eq_none h]
    simp only [reduceBEq, Bool.false_eq_true, false_iff]
    tauto
  · obtain ⟨hx, hy⟩ := not_or.mp h
    rw [hlt, compare_eq_placeCompare hx hy, beq_iff_eq, Option.some.injEq]
    tauto

instance : OrderedScalar Float where
  lt_iff x y := by
    rw [lt_iff_place, le_iff_place, le_iff_place, placeCompare_eq_lt]
    tauto
  le_trans x y z hxy hyz := by
    rw [le_iff_place] at hxy hyz ⊢
    refine ⟨hxy.1, hyz.2.1, ?_⟩
    have hxy' := (isLE_placeCompare _ _).mp hxy.2.2
    have hyz' := (isLE_placeCompare _ _).mp hyz.2.2
    rw [isLE_placeCompare]
    omega
  le_total x y hx hy := by
    rw [le_iff_place] at hx hy ⊢
    rw [le_iff_place, isLE_placeCompare, isLE_placeCompare]
    let p := place x.toModel.unpack
    let q := place y.toModel.unpack
    have either : (p.1 < q.1 ∨ p.1 = q.1 ∧ (p.2.1 < q.2.1 ∨ p.2.1 = q.2.1 ∧ p.2.2 ≤ q.2.2)) ∨
        (q.1 < p.1 ∨ q.1 = p.1 ∧ (q.2.1 < p.2.1 ∨ q.2.1 = p.2.1 ∧ q.2.2 ≤ p.2.2)) := by
      omega
    rcases either with h | h
    · exact Or.inl ⟨hx.1, hy.1, h⟩
    · exact Or.inr ⟨hy.1, hx.1, h⟩

instance : EquatedScalar Float where
  beq_iff x y := by
    have hbeq : (x == y) = (x.toModel.unpack.compare y.toModel.unpack == some .eq) := rfl
    rw [hbeq, le_iff_place, le_iff_place]
    by_cases h : x.toModel.unpack = .notANumber ∨ y.toModel.unpack = .notANumber
    · rw [compare_eq_none h]
      simp only [reduceBEq, Bool.false_eq_true, false_iff]
      tauto
    · obtain ⟨hx, hy⟩ := not_or.mp h
      rw [compare_eq_placeCompare hx hy, beq_iff_eq, Option.some.injEq, placeCompare_eq_eq]
      tauto

theorem le_self_iff (x : Float) : x ≤ x ↔ x.toModel.unpack ≠ .notANumber := by
  rw [le_iff_place, isLE_placeCompare]
  have hsame : (place x.toModel.unpack).2.2 ≤ (place x.toModel.unpack).2.2 := Int.le_refl _
  tauto

instance : NumberScalar Float where
  zero_le_zero := by decide +kernel
  le_self_of_isFinite x h := by
    have hdiff : x - x ≤ x - x := of_decide_eq_true h
    rw [le_self_iff] at hdiff ⊢
    intro hnan
    -- What is no number differs from itself by no number.
    have hsub : (x - x).toModel = .pack (.sub .binary64 x.toModel.unpack x.toModel.unpack) := rfl
    rw [hsub, hnan] at hdiff
    exact hdiff rfl

end Binary64

end Toolpath
