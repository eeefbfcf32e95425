import Toolpath.PathName

/-!
The comparison of names is an order. Texts and lists of groups are compared by their first
difference, so what holds for characters and for groups holds for them.
-/

set_option autoImplicit false

namespace Toolpath.PathName

open Std (TransCmp OrientedCmp)

private theorem Group.compareTexts_eq_compareLex :
    Group.compareTexts = List.compareLex (compareOn Char.toNat) := by
  funext a b
  induction a generalizing b with
  | nil => cases b <;> simp [Group.compareTexts, List.compareLex]
  | cons c a ih =>
    cases b with
    | nil => simp [Group.compareTexts, List.compareLex]
    | cons d b => rw [Group.compareTexts, ih, List.compareLex_cons_cons, compareOn]

instance : TransCmp Group.compareTexts := by
  rw [Group.compareTexts_eq_compareLex]
  infer_instance

private theorem Group.compare_number (a b : List Char) :
    Group.compare (.number a) (.number b) =
      compareLex (compareOn List.length) Group.compareTexts a b := rfl

private theorem Group.compare_word (a b : List Char) :
    Group.compare (.word a) (.word b) = Group.compareTexts a b := rfl

instance : TransCmp Group.compare where
  eq_swap {a b} := by
    cases a <;> cases b
    case number.number =>
      rw [Group.compare_number, Group.compare_number]
      exact OrientedCmp.eq_swap
    case word.word =>
      rw [Group.compare_word, Group.compare_word]
      exact OrientedCmp.eq_swap
    all_goals rfl
  isLE_trans {a b c} hab hbc := by
    cases a <;> cases b <;> cases c
    case number.number.number =>
      rw [Group.compare_number] at hab hbc ⊢
      exact TransCmp.isLE_trans hab hbc
    case word.word.word =>
      rw [Group.compare_word] at hab hbc ⊢
      exact TransCmp.isLE_trans hab hbc
    all_goals simp [Group.compare] at hab hbc ⊢

private theorem compareGroups_eq_compareLex : compareGroups = List.compareLex Group.compare := by
  funext a b
  induction a generalizing b with
  | nil => cases b <;> simp [compareGroups, List.compareLex]
  | cons x a ih =>
    cases b with
    | nil => simp [compareGroups, List.compareLex]
    | cons y b => rw [compareGroups, ih, List.compareLex_cons_cons]

instance : TransCmp compareGroups := by
  rw [compareGroups_eq_compareLex]
  infer_instance

instance : TransCmp PathName.compare where
  eq_swap {a b} := by
    rw [compare, compare]
    exact OrientedCmp.eq_swap
  isLE_trans {a b c} hab hbc := by
    rw [compare] at hab hbc ⊢
    exact TransCmp.isLE_trans hab hbc

end Toolpath.PathName
