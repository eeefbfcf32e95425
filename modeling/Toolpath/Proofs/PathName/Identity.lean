import Toolpath.PathName

/-!
When two names name one path. The comparison tells apart all lists of groups, so names are the same
exactly if their groups are, and being the same is an equivalence.
-/

set_option autoImplicit false

namespace Toolpath.PathName

private theorem Group.compareTexts_eq_iff (a b : List Char) :
    Group.compareTexts a b = .eq ↔ a = b := by
  induction a generalizing b with
  | nil => cases b <;> simp [Group.compareTexts]
  | cons c a ih =>
    cases b with
    | nil => simp [Group.compareTexts]
    | cons d b =>
      rw [Group.compareTexts, Ordering.then_eq_eq, ih, Nat.compare_eq_eq, Char.toNat_inj,
        List.cons.injEq]

private theorem Group.compare_eq_iff (x y : Group) : x.compare y = .eq ↔ x = y := by
  cases x with
  | number a =>
    cases y with
    | number b =>
      rw [Group.compare, Ordering.then_eq_eq, Group.compareTexts_eq_iff, Nat.compare_eq_eq,
        Group.number.injEq]
      exact ⟨And.right, fun h => ⟨congrArg List.length h, h⟩⟩
    | word b => simp [Group.compare]
  | word a =>
    cases y with
    | number b => simp [Group.compare]
    | word b => rw [Group.compare, Group.compareTexts_eq_iff, Group.word.injEq]

theorem compareGroups_eq_iff (a b : List Group) : compareGroups a b = .eq ↔ a = b := by
  induction a generalizing b with
  | nil => cases b <;> simp [compareGroups]
  | cons x a ih =>
    cases b with
    | nil => simp [compareGroups]
    | cons y b =>
      rw [compareGroups, Ordering.then_eq_eq, ih, Group.compare_eq_iff, List.cons.injEq]

theorem beq_iff_groups_eq (a b : PathName) : (a == b) = true ↔ a.groups = b.groups := by
  change (compareGroups a.groups b.groups == .eq) = true ↔ _
  rw [beq_iff_eq, compareGroups_eq_iff]

instance : EquivBEq PathName where
  rfl := by
    intro a
    rw [beq_iff_groups_eq]
  symm := by
    intro a b h
    rw [beq_iff_groups_eq] at h ⊢
    exact h.symm
  trans := by
    intro a b c hab hbc
    rw [beq_iff_groups_eq] at hab hbc ⊢
    exact hab.trans hbc

end Toolpath.PathName
