import Toolpath.Proofs.Scalar.Printing

/-!
Equal scalars. Two doubles are equal if they are one double or both are zero, of whichever sign; so
the arithmetic of drawings gives equal results for equal doubles.
-/

set_option autoImplicit false

namespace Toolpath

/-- Equal as values are compared, or one value: what is no number is not equal to itself. -/
def Equated {β : Type} [BEq β] (x y : β) : Prop := x = y ∨ (x == y) = true

theorem equivalence_equated {β : Type} [BEq β] [PartialEquivBEq β] :
    Equivalence (Equated (β := β)) where
  refl _ := .inl rfl
  symm h := h.imp Eq.symm BEq.symm
  trans := by
    rintro x y z (rfl | hxy) (rfl | hyz)
    · exact .inl rfl
    · exact .inr hyz
    · exact .inr hxy
    · exact .inr (BEq.trans hxy hyz)

instance EquatedScalar.partialEquivBEq {α : Type} [Scalar α] [EquatedScalar α] :
    PartialEquivBEq α where
  symm := beq_symm
  trans := beq_trans

theorem EquatedScalar.le_congr {α : Type} [Scalar α] [EquatedScalar α] {x y : α}
    (h : Equated x y) (z : α) : x ≤ z ↔ y ≤ z := by
  rcases h with rfl | h
  · exact Iff.rfl
  · obtain ⟨hxy, hyx⟩ := (beq_iff x y).mp h
    exact ⟨OrderedScalar.le_trans y x z hyx, OrderedScalar.le_trans x y z hxy⟩

/-- Scalars whose arithmetic does not tell equal ones apart. -/
class CongruentScalar (α : Type) [Scalar α] : Prop extends EquatedScalar α where
  add : ∀ {x y x' y' : α}, Equated x x' → Equated y y' → Equated (x + y) (x' + y')
  sub : ∀ {x y x' y' : α}, Equated x x' → Equated y y' → Equated (x - y) (x' - y')
  mul : ∀ {x y x' y' : α}, Equated x x' → Equated y y' → Equated (x * y) (x' * y')
  hypot : ∀ {x y x' y' : α}, Equated x x' → Equated y y' →
    Equated (Scalar.hypot x y) (Scalar.hypot x' y')
  sin : ∀ {x y : α}, Equated x y → Equated (Scalar.sin x) (Scalar.sin y)
  cos : ∀ {x y : α}, Equated x y → Equated (Scalar.cos x) (Scalar.cos y)

namespace Binary64

open Float.Model (UnpackedFloat)
open Float.Model.UnpackedFloat (Sign)

/-- One unpacked double, or two zeros. -/
inductive Alike : UnpackedFloat → UnpackedFloat → Prop
  | refl (u : UnpackedFloat) : Alike u u
  | zeros (s t : Sign) : Alike (.zero s) (.zero t)

private theorem alike_of_place_eq {u v : UnpackedFloat} (h : place u = place v) : Alike u v := by
  cases u with
  | infinity s =>
    cases v with
    | infinity t => cases s <;> cases t <;> first | exact .refl _ | cases h
    | finite t => cases s <;> cases t <;> cases h
    | _ => cases s <;> cases h
  | notANumber =>
    cases v with
    | notANumber => exact .refl _
    | infinity t | finite t => cases t <;> cases h
    | zero => cases h
  | zero s =>
    cases v with
    | zero t => exact .zeros s t
    | infinity t | finite t => cases t <;> cases h
    | notANumber => cases h
  | finite s m e =>
    cases v with
    | finite t n f =>
      -- The place of a negative number holds its exponent and its mantissa turned round.
      cases s <;> cases t <;> simp only [place, Prod.mk.injEq] at h
      · obtain ⟨-, he, hm⟩ := h
        obtain rfl : e = f := by omega
        obtain rfl : m = n := by omega
        exact .refl _
      · omega
      · omega
      · obtain ⟨-, rfl, hm⟩ := h
        obtain rfl : m = n := by omega
        exact .refl _
    | infinity t => cases s <;> cases t <;> cases h
    | _ => cases s <;> cases h

private theorem ofModel_pack_unpack (x : Float) : Float.ofModel (.pack x.toModel.unpack) = x := by
  obtain ⟨⟨bits, hvalid⟩⟩ := x
  have hbits := UnpackedFloat.pack_unpack_of_valid hvalid
  simp only [Float.Model.pack, Float.Model.unpack, hbits]

private theorem eq_of_unpack_eq {x y : Float} (h : x.toModel.unpack = y.toModel.unpack) :
    x = y := by
  rw [← ofModel_pack_unpack x, h, ofModel_pack_unpack]

private theorem equated_iff_alike (x y : Float) :
    Equated x y ↔ Alike x.toModel.unpack y.toModel.unpack := by
  constructor
  · rintro (rfl | h)
    · exact .refl _
    · obtain ⟨hxy, hyx⟩ := (EquatedScalar.beq_iff x y).mp h
      have hxy := (isLE_placeCompare _ _).mp ((le_iff_place x y).mp hxy).2.2
      have hyx := (isLE_placeCompare _ _).mp ((le_iff_place y x).mp hyx).2.2
      refine alike_of_place_eq (Prod.ext ?_ (Prod.ext ?_ ?_)) <;> omega
  · intro h
    generalize hx : x.toModel.unpack = u, hy : y.toModel.unpack = v at h
    cases h with
    | refl => exact .inl (eq_of_unpack_eq (hx.trans hy.symm))
    | zeros s t =>
      have hbeq : (x == y) = (x.toModel.unpack.compare y.toModel.unpack == some .eq) := rfl
      refine .inr ?_
      rw [hbeq, hx, hy]
      rfl

private theorem eq_or_zeros {x y : Float} (h : Equated x y) :
    x = y ∨ x = 0.0 ∧ y = -0.0 ∨ x = -0.0 ∧ y = 0.0 := by
  have hzeros (s : Sign) :
      Float.ofModel (.pack (.zero s)) = 0.0 ∨ Float.ofModel (.pack (.zero s)) = -0.0 := by
    cases s <;> decide +kernel
  have halike := (equated_iff_alike x y).mp h
  rw [← ofModel_pack_unpack x, ← ofModel_pack_unpack y]
  generalize x.toModel.unpack = u, y.toModel.unpack = v at halike
  cases halike with
  | refl => exact .inl rfl
  | zeros s t =>
    rcases hzeros s with hs | hs <;> rcases hzeros t with ht | ht <;> rw [hs, ht]
    · exact .inl rfl
    · exact .inr (.inl ⟨rfl, rfl⟩)
    · exact .inr (.inr ⟨rfl, rfl⟩)
    · exact .inl rfl

namespace Alike

private theorem trans {u v w : UnpackedFloat} (h : Alike u v) (k : Alike v w) : Alike u w := by
  cases h with
  | refl => exact k
  | zeros s t => cases k with
    | refl => exact .zeros s t
    | zeros _ r => exact .zeros s r

variable {u v u' v' : UnpackedFloat}

private theorem map₂ {op : UnpackedFloat → UnpackedFloat → UnpackedFloat}
    (left : ∀ s t v, Alike (op (.zero s) v) (op (.zero t) v))
    (right : ∀ u s t, Alike (op u (.zero s)) (op u (.zero t)))
    (h : Alike u u') (k : Alike v v') : Alike (op u v) (op u' v') := by
  have hleft : Alike (op u v) (op u' v) := by
    cases h with
    | refl => exact .refl _
    | zeros s t => exact left s t v
  have hright : Alike (op u' v) (op u' v') := by
    cases k with
    | refl => exact .refl _
    | zeros s t => exact right u' s t
  exact hleft.trans hright

private theorem add :
    Alike u u' → Alike v v' → Alike (.add .binary64 u v) (.add .binary64 u' v') := by
  refine map₂ (fun s t v => ?_) (fun u s t => ?_)
  · cases v with
    | zero r => cases r <;> cases s <;> cases t <;> exact .zeros _ _
    | _ => exact .refl _
  · cases u with
    | zero r => cases r <;> cases s <;> cases t <;> exact .zeros _ _
    | _ => exact .refl _

private theorem sub :
    Alike u u' → Alike v v' → Alike (.sub .binary64 u v) (.sub .binary64 u' v') := by
  refine map₂ (fun s t v => ?_) (fun u s t => ?_)
  · cases v with
    | zero r => cases r <;> cases s <;> cases t <;> exact .zeros _ _
    | _ => exact .refl _
  · cases u with
    | zero r => cases r <;> cases s <;> cases t <;> exact .zeros _ _
    | _ => exact .refl _

private theorem mul :
    Alike u u' → Alike v v' → Alike (.mul .binary64 u v) (.mul .binary64 u' v') := by
  refine map₂ (fun s t v => ?_) (fun u s t => ?_)
  · cases v <;> first | exact .refl _ | exact .zeros _ _
  · cases u <;> first | exact .refl _ | exact .zeros _ _

end Alike

private theorem equated_ofModel {u v : UnpackedFloat} (h : Alike u v) :
    Equated (Float.ofModel (.pack u)) (Float.ofModel (.pack v)) := by
  cases h with
  | refl => exact .inl rfl
  | zeros s t => exact .inr (by cases s <;> cases t <;> decide +kernel)

private theorem parts_zero : parts 0.0 = .finite false 0 leastExponent := by
  have hbits : (0.0 : Float).toBits.toNat = 0 := by decide +kernel
  rw [parts, hbits]
  rfl

private theorem parts_neg_zero : parts (-0.0) = .finite true 0 leastExponent := by
  have hbits : (-0.0 : Float).toBits.toNat = twoPow 63 := by decide +kernel
  rw [parts, hbits]
  rfl

private theorem hypot_neg_zero_left (y : Float) : hypot (-0.0) y = hypot 0.0 y := by
  unfold hypot
  rw [parts_zero, parts_neg_zero]
  cases parts y <;> rfl

private theorem hypot_neg_zero_right (x : Float) : hypot x (-0.0) = hypot x 0.0 := by
  have habs : (-0.0 : Float).abs = Float.abs 0.0 := by decide +kernel
  unfold hypot
  rw [parts_zero, parts_neg_zero]
  cases parts x with
  | nan | infinite => rfl
  | finite => simp [habs]

/-- The arithmetic of doubles is congruent, if sine and cosine do not tell the two zeros apart. -/
theorem congruentScalar (hsin : (Float.sin 0.0 == Float.sin (-0.0)) = true)
    (hcos : (Float.cos 0.0 == Float.cos (-0.0)) = true) : CongruentScalar Float where
  add {x y x' y'} h k :=
    equated_ofModel (((equated_iff_alike x x').mp h).add ((equated_iff_alike y y').mp k))
  sub {x y x' y'} h k :=
    equated_ofModel (((equated_iff_alike x x').mp h).sub ((equated_iff_alike y y').mp k))
  mul {x y x' y'} h k :=
    equated_ofModel (((equated_iff_alike x x').mp h).mul ((equated_iff_alike y y').mp k))
  hypot {x y x' y'} h k := by
    have hx : hypot x y = hypot x' y := by
      obtain rfl | ⟨rfl, rfl⟩ | ⟨rfl, rfl⟩ := eq_or_zeros h
      · rfl
      · exact (hypot_neg_zero_left y).symm
      · exact hypot_neg_zero_left y
    have hy : hypot x' y = hypot x' y' := by
      obtain rfl | ⟨rfl, rfl⟩ | ⟨rfl, rfl⟩ := eq_or_zeros k
      · rfl
      · exact (hypot_neg_zero_right x').symm
      · exact hypot_neg_zero_right x'
    exact .inl (hx.trans hy)
  sin h := by
    obtain rfl | ⟨rfl, rfl⟩ | ⟨rfl, rfl⟩ := eq_or_zeros h
    · exact .inl rfl
    · exact .inr hsin
    · exact .inr (BEq.symm hsin)
  cos h := by
    obtain rfl | ⟨rfl, rfl⟩ | ⟨rfl, rfl⟩ := eq_or_zeros h
    · exact .inl rfl
    · exact .inr hcos
    · exact .inr (BEq.symm hcos)

end Binary64

namespace RealScalar

instance : EquatedScalar ℝ where
  beq_iff _ _ := decide_eq_true_iff.trans le_antisymm_iff

private theorem eq_of_equated {x y : ℝ} (h : Equated x y) : x = y := h.elim id of_decide_eq_true

instance : CongruentScalar ℝ where
  add h k := .inl (by rw [eq_of_equated h, eq_of_equated k])
  sub h k := .inl (by rw [eq_of_equated h, eq_of_equated k])
  mul h k := .inl (by rw [eq_of_equated h, eq_of_equated k])
  hypot h k := .inl (by rw [eq_of_equated h, eq_of_equated k])
  sin h := .inl (congrArg _ (eq_of_equated h))
  cos h := .inl (congrArg _ (eq_of_equated h))

end RealScalar

end Toolpath
