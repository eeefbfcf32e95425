import Mathlib.Tactic.SplitIfs

/-!
Small and capital letters. Only the letters from A to Z have both forms, and the capital one comes
first in the order of characters.
-/

set_option autoImplicit false

namespace Toolpath.Text

private theorem toNat_toUpper (c : Char) :
    c.toUpper.toNat = if 97 ≤ c.toNat ∧ c.toNat ≤ 122 then c.toNat - 32 else c.toNat := by
  unfold Char.toUpper
  split
  · next h =>
    simp only [UInt32.le_iff_toNat_le] at h
    have hlow : 97 ≤ c.val.toNat := h.1
    have hhigh : c.val.toNat ≤ 122 := h.2
    have hshift : ('A'.val - 'a'.val).toNat = 2 ^ 32 - 32 := by decide
    rw [if_pos ⟨hlow, hhigh⟩]
    change (c.val + ('A'.val - 'a'.val)).toNat = c.val.toNat - 32
    rw [UInt32.toNat_add, hshift]
    omega
  · next h =>
    simp only [UInt32.le_iff_toNat_le] at h
    exact (if_neg h).symm

private theorem toNat_toLower (c : Char) :
    c.toLower.toNat = if 65 ≤ c.toNat ∧ c.toNat ≤ 90 then c.toNat + 32 else c.toNat := by
  unfold Char.toLower
  split
  · next h =>
    simp only [ge_iff_le, UInt32.le_iff_toNat_le] at h
    have hlow : 65 ≤ c.val.toNat := h.1
    have hhigh : c.val.toNat ≤ 90 := h.2
    have hshift : ('a'.val - 'A'.val).toNat = 32 := by decide
    rw [if_pos ⟨hlow, hhigh⟩]
    change (c.val + ('a'.val - 'A'.val)).toNat = c.val.toNat + 32
    rw [UInt32.toNat_add, hshift]
    omega
  · next h =>
    simp only [ge_iff_le, UInt32.le_iff_toNat_le] at h
    exact (if_neg h).symm

private theorem isAlpha_bounds {c : Char} (h : c.isAlpha = true) :
    65 ≤ c.toNat ∧ c.toNat ≤ 90 ∨ 97 ≤ c.toNat ∧ c.toNat ≤ 122 := by
  unfold Char.isAlpha Char.isUpper Char.isLower at h
  simp only [ge_iff_le, Bool.or_eq_true, Bool.and_eq_true, decide_eq_true_eq,
    UInt32.le_iff_toNat_le] at h
  exact h

variable {letter : Char}

theorem toUpper_eq_iff (h : letter.isAlpha = true) (c : Char) :
    c.toUpper = letter.toUpper ↔ c = letter.toUpper ∨ c = letter.toLower := by
  have hbounds := isAlpha_bounds h
  simp only [← Char.toNat_inj, toNat_toUpper, toNat_toLower]
  split_ifs <;> omega

theorem toUpper_lt_toLower (h : letter.isAlpha = true) :
    letter.toUpper.toNat < letter.toLower.toNat := by
  have hbounds := isAlpha_bounds h
  rw [toNat_toUpper, toNat_toLower]
  split_ifs <;> omega

end Toolpath.Text
