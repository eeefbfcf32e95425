import Mathlib.Algebra.Order.Field.Power
import Mathlib.Algebra.Order.Field.Rat
import Mathlib.Tactic.FieldSimp
import Mathlib.Tactic.Ring
import Toolpath.Decimal.Reading
import Toolpath.Proofs.Diagnostic.Filling

/-!
What decimals stand for. The text of a decimal is read back as a decimal of the same value, though
its exponent may be another: zeros at the end are read as digits.
-/

set_option autoImplicit false

namespace Toolpath

namespace Decimal

def value (d : Decimal) : ℚ :=
  (if d.negative then -1 else 1) * d.mantissa * (10 : ℚ) ^ d.exponent

theorem value_negated (d : Decimal) :
    ({ d with negative := !d.negative } : Decimal).value = -d.value := by
  cases hsign : d.negative <;> simp [value, hsign]

theorem takeDigits_append {cs rest : List Char} (h : Digits cs)
    (stop : ∀ c ∈ rest.head?, c.isDigit = false) : takeDigits (cs ++ rest) = (cs, rest) := by
  have hrest : takeDigits rest = ([], rest) := by
    cases rest with
    | nil => rfl
    | cons c rest =>
      have hc : ¬ c.isDigit = true := by simp [stop c rfl]
      rw [takeDigits, List.span_eq_takeWhile_dropWhile, List.takeWhile_cons_of_neg hc,
        List.dropWhile_cons_of_neg hc]
  rw [takeDigits, List.span_eq_takeWhile_dropWhile] at hrest ⊢
  rw [List.takeWhile_append_of_pos h, List.dropWhile_append_of_pos h]
  rw [(Prod.mk.inj hrest).1, (Prod.mk.inj hrest).2, List.append_nil]

private theorem takeDigits_self {cs : List Char} (h : Digits cs) : takeDigits cs = (cs, []) := by
  have hnil : takeDigits (cs ++ []) = (cs, []) := takeDigits_append h (by simp)
  rwa [List.append_nil] at hnil

private theorem takeSign_of_digits {cs : List Char} (h : Digits cs) (hne : cs ≠ [])
    (rest : List Char) :
    takeSign (cs ++ rest) = (false, cs ++ rest) := by
  cases cs with
  | nil => exact absurd rfl hne
  | cons c cs =>
    have hc := h c List.mem_cons_self
    rw [List.cons_append]
    unfold takeSign
    split
    · next heq =>
      obtain ⟨rfl, -⟩ := List.cons_eq_cons.mp heq
      cases hc
    · next heq =>
      obtain ⟨rfl, -⟩ := List.cons_eq_cons.mp heq
      cases hc
    · rfl

private theorem length_padded {places n : Nat} (hplaces : 0 < places) (h : n < 10 ^ places) :
    (padded places n).length = places := by
  have hdigits : (Nat.toDigits 10 n).length ≤ places :=
    (Nat.length_toDigits_le_iff (by decide) hplaces).mpr h
  rw [padded, List.length_append, List.length_replicate]
  omega

private theorem ofDigitChars_padded {places n : Nat} (hplaces : 0 < places) (h : n < 10 ^ places)
    (start : Nat) : Nat.ofDigitChars 10 (padded places n) start = 10 ^ places * start + n := by
  rw [Nat.ofDigitChars_eq_ofDigitChars_zero, length_padded hplaces h, padded,
    Nat.ofDigitChars_append, Nat.ofDigitChars_replicate_zero, Nat.mul_zero,
    Nat.ofDigitChars_ten_toDigits]

theorem length_places (m k : Nat) : (padded (k + 1) (m % tenPow (k + 1))).length = k + 1 :=
  length_padded k.succ_pos (Nat.mod_lt m (tenPow_pos (k + 1)))

theorem ofDigitChars_places (m k : Nat) :
    Nat.ofDigitChars 10
      (Nat.toDigits 10 (m / tenPow (k + 1)) ++ padded (k + 1) (m % tenPow (k + 1))) 0 = m := by
  have hbelow : m % tenPow (k + 1) < 10 ^ (k + 1) := Nat.mod_lt m (tenPow_pos (k + 1))
  rw [Nat.ofDigitChars_append, Nat.ofDigitChars_ten_toDigits, ofDigitChars_padded k.succ_pos hbelow]
  exact Nat.div_add_mod m (tenPow (k + 1))

private theorem takeSign_magnitude (m : Nat) (e : Int) :
    takeSign (magnitude m e) = (false, magnitude m e) := by
  cases e with
  | ofNat zeros =>
    rw [magnitude]
    split
    · rfl
    · exact takeSign_of_digits (digits_toDigits m) Nat.toDigits_ne_nil _
  | negSucc k => exact takeSign_of_digits (digits_toDigits _) Nat.toDigits_ne_nil _

private theorem takeSign_text (d : Decimal) :
    takeSign d.text = (d.negative, magnitude d.mantissa d.exponent) := by
  unfold text
  cases hsign : d.negative with
  | true => rfl
  | false => exact takeSign_magnitude d.mantissa d.exponent

private theorem exists_ofText?_text (d : Decimal) :
    ∃ e, ofText? d.text = some e ∧ e.value = d.value := by
  obtain ⟨negative, m, exponent⟩ := d
  unfold ofText?
  rw [takeSign_text]
  cases exponent with
  | ofNat zeros =>
    have hdigits := digits_magnitude m zeros
    have hnumber : Nat.ofDigitChars 10 (magnitude m (.ofNat zeros)) 0 = m * 10 ^ zeros := by
      rw [magnitude]
      split
      · next hzero => simp [hzero, Nat.ofDigitChars_cons]
      · rw [Nat.ofDigitChars_append, Nat.ofDigitChars_ten_toDigits,
          Nat.ofDigitChars_replicate_zero, Nat.mul_comm]
    refine ⟨⟨negative, m * 10 ^ zeros, 0⟩, ?_, ?_⟩
    · simp only [takeDigits_self hdigits, readExponent?, List.append_nil, hnumber]
      rw [if_neg fun h => magnitude_ne_nil m _ h.1]
      rfl
    · simp [value]
  | negSucc k =>
    have hplaces : Digits (padded (k + 1) (m % tenPow (k + 1))) := digits_padded _ _
    have hlength := length_places m k
    have hnumber := ofDigitChars_places m k
    have hwhole : takeDigits (magnitude m (.negSucc k)) =
        (Nat.toDigits 10 (m / tenPow (k + 1)), '.' :: padded (k + 1) (m % tenPow (k + 1))) :=
      takeDigits_append (digits_toDigits _) (by simp)
    refine ⟨⟨negative, m, .negSucc k⟩, ?_, rfl⟩
    simp only [hwhole, takeDigits_self hplaces, readExponent?, hnumber, hlength]
    rw [if_neg fun h => Nat.toDigits_ne_nil h.1]
    rfl

def number? (text : List Char) : Option ℚ := (ofText? text).map value

end Decimal

namespace Numeral

def value? : Numeral → Option ℚ
  | .finite d => some d.value
  | _ => none

theorem exists_of_value? {n : Numeral} {v : ℚ} (h : n.value? = some v) :
    ∃ d, n = .finite d ∧ d.value = v := by
  cases n with
  | nan | infinite => cases h
  | finite d => exact ⟨d, rfl, Option.some.inj h⟩

/-- What is printed is read as what it stands for. -/
theorem number?_text {n : Numeral} {v : ℚ} (h : n.value? = some v) :
    Decimal.number? n.text.toList = some v := by
  obtain ⟨d, rfl, rfl⟩ := exists_of_value? h
  obtain ⟨e, he, hvalue⟩ := d.exists_ofText?_text
  rw [text, textBy, String.toList_ofList, Decimal.number?, he, Option.map_some, hvalue]

end Numeral

end Toolpath
