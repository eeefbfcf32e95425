import Toolpath.PathName
import Toolpath.Powers

/-!
Runs of digits are compared as numbers. Without zeros in front a longer run is a greater number, and
of two runs of one length the first digit that differs decides; so no run is too long to be
compared.
-/

set_option autoImplicit false

namespace Toolpath.PathName.Group

def IsDigits (cs : List Char) : Prop := ∀ c ∈ cs, c.isDigit = true

def value (digits : List Char) : Nat := Nat.ofDigitChars 10 digits 0

private theorem value_cons (c : Char) (cs : List Char) :
    value (c :: cs) = tenPow cs.length * (c.toNat - 48) + value cs := by
  rw [value, Nat.ofDigitChars_cons, Nat.ofDigitChars_eq_ofDigitChars_zero, Nat.mul_zero,
    Nat.zero_add]
  rfl

private theorem isDigit_bounds {c : Char} (h : c.isDigit = true) : 48 ≤ c.toNat ∧ c.toNat ≤ 57 := by
  simp only [Char.isDigit, Bool.and_eq_true, decide_eq_true_eq] at h
  exact h

private theorem value_lt_pow {cs : List Char} (h : IsDigits cs) : value cs < tenPow cs.length := by
  induction cs with
  | nil => decide
  | cons c cs ih =>
    have hrest := ih fun d hd => h d (List.mem_cons_of_mem c hd)
    have hdigit : c.toNat - 48 ≤ 9 := by
      have := (isDigit_bounds (h c List.mem_cons_self)).2
      omega
    rw [value_cons, List.length_cons, tenPow_succ]
    calc tenPow cs.length * (c.toNat - 48) + value cs
        < tenPow cs.length * 9 + tenPow cs.length :=
          Nat.add_lt_add_of_le_of_lt (Nat.mul_le_mul_left _ hdigit) hrest
      _ = tenPow cs.length * 10 := by omega

private theorem value_lt_of_digit_lt {x y : List Char} {c d : Char} (hx : IsDigits x)
    (length : x.length = y.length) (hc : c.isDigit = true) (hcd : c.toNat < d.toNat) :
    value (c :: x) < value (d :: y) := by
  have hbelow := value_lt_pow hx
  have hstep : c.toNat - 48 + 1 ≤ d.toNat - 48 := by
    have := (isDigit_bounds hc).1
    omega
  rw [value_cons, value_cons]
  rw [length] at hbelow ⊢
  calc tenPow y.length * (c.toNat - 48) + value x
      < tenPow y.length * (c.toNat - 48) + tenPow y.length := Nat.add_lt_add_left hbelow _
    _ = tenPow y.length * (c.toNat - 48 + 1) := by rw [Nat.mul_add, Nat.mul_one]
    _ ≤ tenPow y.length * (d.toNat - 48) := Nat.mul_le_mul_left _ hstep
    _ ≤ tenPow y.length * (d.toNat - 48) + value y := Nat.le_add_right _ _

private theorem compareTexts_of_length_eq {x y : List Char} (hx : IsDigits x) (hy : IsDigits y)
    (length : x.length = y.length) : compareTexts x y = Ord.compare (value x) (value y) := by
  induction x generalizing y with
  | nil =>
    cases y with
    | nil => rfl
    | cons d y => cases length
  | cons c x ih =>
    cases y with
    | nil => cases length
    | cons d y =>
      have hx' : IsDigits x := fun e he => hx e (List.mem_cons_of_mem c he)
      have hy' : IsDigits y := fun e he => hy e (List.mem_cons_of_mem d he)
      have hc := hx c List.mem_cons_self
      have hd := hy d List.mem_cons_self
      have hlength : x.length = y.length := Nat.succ.inj length
      rw [compareTexts, ih hx' hy' hlength]
      rcases Nat.lt_trichotomy c.toNat d.toNat with hlt | heq | hgt
      · rw [Nat.compare_eq_lt.mpr hlt,
          Nat.compare_eq_lt.mpr (value_lt_of_digit_lt hx' hlength hc hlt)]
        rfl
      · rw [Nat.compare_eq_eq.mpr heq, value_cons, value_cons, heq, hlength]
        simp only [Nat.compare_eq_ite_lt, Nat.add_lt_add_iff_left]
        rfl
      · rw [Nat.compare_eq_gt.mpr hgt,
          Nat.compare_eq_gt.mpr (value_lt_of_digit_lt hy' hlength.symm hd hgt)]
        rfl

def IsStripped (digits : List Char) : Prop :=
  digits = ['0'] ∨ ∃ c cs, digits = c :: cs ∧ c ≠ '0'

private theorem pow_le_value {c : Char} {cs : List Char} (hc : c.isDigit = true) (hne : c ≠ '0') :
    tenPow cs.length ≤ value (c :: cs) := by
  have hzero : c.toNat ≠ 48 := fun h => hne (Char.toNat_inj.mp h)
  have hpos : 1 ≤ c.toNat - 48 := by
    have := (isDigit_bounds hc).1
    omega
  rw [value_cons]
  calc tenPow cs.length = tenPow cs.length * 1 := (Nat.mul_one _).symm
    _ ≤ tenPow cs.length * (c.toNat - 48) := Nat.mul_le_mul_left _ hpos
    _ ≤ tenPow cs.length * (c.toNat - 48) + value cs := Nat.le_add_right _ _

private theorem value_lt_of_length_lt {x y : List Char} (hx : IsDigits x) (hy : IsDigits y)
    (stripped : IsStripped x) (stripped' : IsStripped y) (length : x.length < y.length) :
    value x < value y := by
  have hpos : 0 < x.length := by
    rcases stripped with rfl | ⟨c, cs, rfl, -⟩
    · decide
    · exact Nat.succ_pos _
  rcases stripped' with rfl | ⟨d, ds, rfl, hne⟩
  · rw [List.length_singleton] at length
    omega
  · calc value x < tenPow x.length := value_lt_pow hx
      _ ≤ tenPow ds.length := Nat.pow_le_pow_right (by decide) (Nat.le_of_lt_succ length)
      _ ≤ value (d :: ds) := pow_le_value (hy d List.mem_cons_self) hne

private theorem compare_stripped {x y : List Char} (hx : IsDigits x) (hy : IsDigits y)
    (stripped : IsStripped x) (stripped' : IsStripped y) :
    compare (.number x) (.number y) = Ord.compare (value x) (value y) := by
  rw [compare]
  rcases Nat.lt_trichotomy x.length y.length with hlt | heq | hgt
  · rw [Nat.compare_eq_lt.mpr hlt,
      Nat.compare_eq_lt.mpr (value_lt_of_length_lt hx hy stripped stripped' hlt)]
    rfl
  · rw [Nat.compare_eq_eq.mpr heq, compareTexts_of_length_eq hx hy heq]
    rfl
  · rw [Nat.compare_eq_gt.mpr hgt,
      Nat.compare_eq_gt.mpr (value_lt_of_length_lt hy hx stripped' stripped hgt)]
    rfl

private theorem exists_number {digits : List Char} (h : IsDigits digits) :
    ∃ x, ofDigits digits = .number x ∧ IsDigits x ∧ IsStripped x ∧ value x = value digits := by
  induction digits with
  | nil => exact ⟨['0'], rfl, by simp [IsDigits], .inl rfl, rfl⟩
  | cons c cs ih =>
    by_cases hc : c = '0'
    · subst hc
      obtain ⟨x, hgroup, hx, hstripped, hvalue⟩ := ih fun d hd => h d (List.mem_cons_of_mem _ hd)
      refine ⟨x, ?_, hx, hstripped, ?_⟩
      · exact hgroup
      · rw [hvalue, value_cons]
        simp
    · refine ⟨c :: cs, ?_, h, .inr ⟨c, cs, rfl, hc⟩, rfl⟩
      simp [ofDigits, hc]

theorem exists_zeros {run : List Char} (h : IsDigits run) (hne : run ≠ []) :
    ∃ zeros x, run = zeros ++ x ∧ (∀ c ∈ zeros, c = '0') ∧ ofDigits run = .number x ∧
      IsDigits x ∧ IsStripped x := by
  induction run with
  | nil => exact absurd rfl hne
  | cons c cs ih =>
    by_cases hc : c = '0'
    · subst hc
      cases cs with
      | nil => exact ⟨[], ['0'], rfl, by simp, rfl, h, .inl rfl⟩
      | cons d ds =>
        obtain ⟨zeros, x, hrun, hzeros, hgroup, hx, hstripped⟩ :=
          ih (fun e he => h e (List.mem_cons_of_mem _ he)) (List.cons_ne_nil d ds)
        refine ⟨'0' :: zeros, x, by rw [hrun, List.cons_append], ?_, hgroup, hx, hstripped⟩
        exact List.forall_mem_cons.mpr ⟨rfl, hzeros⟩
    · refine ⟨[], c :: cs, rfl, by simp, ?_, h, .inr ⟨c, cs, rfl, hc⟩⟩
      simp [ofDigits, hc]

/-- Runs of digits are compared by the numbers that they denote. -/
theorem compare_ofDigits {x y : List Char} (hx : IsDigits x) (hy : IsDigits y) :
    (ofDigits x).compare (ofDigits y) = Ord.compare (value x) (value y) := by
  obtain ⟨u, hgroup, hu, hstripped, hvalue⟩ := exists_number hx
  obtain ⟨v, hgroup', hv, hstripped', hvalue'⟩ := exists_number hy
  rw [hgroup, hgroup', compare_stripped hu hv hstripped hstripped', hvalue, hvalue']

end Toolpath.PathName.Group
