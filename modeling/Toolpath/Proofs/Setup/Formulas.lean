import Mathlib.Algebra.BigOperators.Group.List.Basic
import Toolpath.Proofs.Decimal.Value
import Toolpath.Setup

/-!
How a machine computes a height that is written as an expression. It goes over the characters from
left to right; in each open bracket it keeps the sum of the terms that are finished and the product
of the factors of the one it is in. A parameter without a value has no meaning, and neither has an
operation outside of brackets.
-/

set_option autoImplicit false

namespace Toolpath

namespace Formula

/-- An open bracket: what its finished terms add up to, and the product of the finished factors of
the next one, with its sign. -/
structure Frame where
  sum : ℚ
  factor : ℚ

/-- The last operand: its text so far, which may be nothing yet, or a bracket that was closed. -/
inductive Operand
  | text (cs : List Char)
  | bracket (value : ℚ)

/-- A formula read so far; the innermost bracket first. -/
structure Reading where
  frames : List Frame
  operand : Operand

variable (parameter : Nat → Option ℚ)

def Operand.value? : Operand → Option ℚ
  | .text ('#' :: digits) =>
    if digits ≠ [] ∧ digits.all Char.isDigit then parameter (Nat.ofDigitChars 10 digits 0) else none
  | .text cs => Decimal.number? cs
  | .bracket value => some value

/-- The innermost bracket, those around it, and the value of the last operand. -/
def Reading.inner? (r : Reading) : Option (Frame × List Frame × ℚ) :=
  match r.frames with
  | [] => none
  | frame :: outer => (r.operand.value? parameter).map fun v => (frame, outer, v)

/-- What a character does. A sign in front of an operand is part of its text. -/
def step (r : Reading) (c : Char) : Option Reading :=
  match c, r.operand with
  | '[', .text [] => some ⟨⟨0, 1⟩ :: r.frames, .text []⟩
  | ']', _ => do
    let (frame, outer, v) ← r.inner? parameter
    return ⟨outer, .bracket (frame.sum + frame.factor * v)⟩
  | '*', _ => do
    let (frame, outer, v) ← r.inner? parameter
    return ⟨⟨frame.sum, frame.factor * v⟩ :: outer, .text []⟩
  | '+', .text [] => some ⟨r.frames, .text ['+']⟩
  | '-', .text [] => some ⟨r.frames, .text ['-']⟩
  | '+', _ => do
    let (frame, outer, v) ← r.inner? parameter
    return ⟨⟨frame.sum + frame.factor * v, 1⟩ :: outer, .text []⟩
  | '-', _ => do
    let (frame, outer, v) ← r.inner? parameter
    return ⟨⟨frame.sum + frame.factor * v, -1⟩ :: outer, .text []⟩
  | '[', _ => none
  | _, .text cs => some ⟨r.frames, .text (cs ++ [c])⟩
  | _, .bracket _ => none

/-- The value of a formula, where it has one. -/
def evaluate? (text : List Char) : Option ℚ := do
  let r ← text.foldlM (step parameter) ⟨[], .text []⟩
  if r.frames.isEmpty then r.operand.value? parameter else none

section Steps

variable {parameter} {r : Reading} {frame : Frame} {outer : List Frame} {v total : ℚ}

def Plain (c : Char) : Prop := c ∉ ['[', ']', '*', '+', '-']

private theorem step_plain {c : Char} (h : Plain c) (frames : List Frame) (cs : List Char) :
    step parameter ⟨frames, .text cs⟩ c = some ⟨frames, .text (cs ++ [c])⟩ := by
  simp only [Plain, List.mem_cons, List.not_mem_nil, or_false, not_or] at h
  obtain ⟨hopen, hclose, htimes, hplus, hminus⟩ := h
  unfold step
  split <;> simp_all

private theorem foldlM_plain {ds : List Char} (h : ∀ c ∈ ds, Plain c) (frames : List Frame)
    (cs : List Char) :
    ds.foldlM (step parameter) ⟨frames, .text cs⟩ = some ⟨frames, .text (cs ++ ds)⟩ := by
  induction ds generalizing cs with
  | nil => simp
  | cons c ds ih =>
    obtain ⟨hc, hds⟩ := List.forall_mem_cons.mp h
    rw [List.foldlM_cons, step_plain hc, Option.bind_eq_bind, Option.bind_some, ih hds,
      List.append_assoc, List.singleton_append]

variable (parameter) in
def Pending (r : Reading) (outer : List Frame) (total : ℚ) : Prop :=
  ∃ frame v, r.inner? parameter = some (frame, outer, v) ∧ frame.sum + frame.factor * v = total

private theorem operand_ne_nil (h : r.inner? parameter = some (frame, outer, v)) :
    r.operand ≠ .text [] := by
  intro hnil
  unfold Reading.inner? at h
  split at h
  · cases h
  · rw [hnil] at h
    cases h

private theorem step_close (h : Pending parameter r outer total) :
    step parameter r ']' = some ⟨outer, .bracket total⟩ := by
  obtain ⟨frame, v, hinner, rfl⟩ := h
  simp [step, hinner]

private theorem step_times (h : r.inner? parameter = some (frame, outer, v)) :
    step parameter r '*' = some ⟨⟨frame.sum, frame.factor * v⟩ :: outer, .text []⟩ := by
  simp [step, h]

private theorem step_plus (h : Pending parameter r outer total) :
    step parameter r '+' = some ⟨⟨total, 1⟩ :: outer, .text []⟩ := by
  obtain ⟨frame, v, hinner, rfl⟩ := h
  have hne := operand_ne_nil hinner
  simp [step, hinner]

private theorem step_minus (h : Pending parameter r outer total) :
    step parameter r '-' = some ⟨⟨total, -1⟩ :: outer, .text []⟩ := by
  obtain ⟨frame, v, hinner, rfl⟩ := h
  have hne := operand_ne_nil hinner
  simp [step, hinner]

private theorem step_sign (plus : Bool) (h : Pending parameter r outer total) :
    step parameter r (if plus then '+' else '-') =
      some ⟨⟨total, if plus then 1 else -1⟩ :: outer, .text []⟩ := by
  cases plus with
  | true => exact step_plus h
  | false => exact step_minus h

private theorem plain_of_isDigit {c : Char} (h : c.isDigit = true) : Plain c := by
  unfold Plain
  intro hmem
  simp only [List.mem_cons, List.not_mem_nil, or_false] at hmem
  rcases hmem with rfl | rfl | rfl | rfl | rfl <;> cases h

private theorem foldlM_number {n : Numeral} (h : n.value? = some v) (frames : List Frame) :
    n.text.toList.foldlM (step parameter) ⟨frames, .text []⟩ =
      some ⟨frames, .text n.text.toList⟩ := by
  obtain ⟨d, rfl, -⟩ := Numeral.exists_of_value? h
  rw [Numeral.text, Numeral.textBy, String.toList_ofList]
  have hdigits : ∀ c ∈ Decimal.magnitude d.mantissa d.exponent, Plain c := by
    intro c hc
    rcases Decimal.isDigit_or_eq_of_mem_magnitude hc with hdigit | rfl
    · exact plain_of_isDigit hdigit
    · unfold Plain
      decide
  unfold Decimal.text
  cases d.negative with
  | false => exact foldlM_plain hdigits frames []
  | true => exact foldlM_plain hdigits frames ['-']

private theorem value?_number {n : Numeral} (h : n.value? = some v) :
    Operand.value? parameter (.text n.text.toList) = some v := by
  have hnumber := Numeral.number?_text h
  unfold Operand.value?
  split
  · next digits heq =>
    -- A sign of parameters is not part of a number.
    rw [Operand.text.inj heq, Decimal.number?] at hnumber
    cases hnumber
  · next cs _ heq => rwa [← Operand.text.inj heq]
  · next heq => cases heq

private theorem inner?_number {n : Numeral} (h : n.value? = some v) :
    Reading.inner? parameter ⟨frame :: outer, .text n.text.toList⟩ = some (frame, outer, v) := by
  rw [Reading.inner?, value?_number h]
  rfl

def parameterText (i : Nat) : List Char := '#' :: (toString i).toList

private theorem foldlM_parameter (i : Nat) (frames : List Frame) :
    (parameterText i).foldlM (step parameter) ⟨frames, .text []⟩ =
      some ⟨frames, .text (parameterText i)⟩ := by
  refine foldlM_plain (List.forall_mem_cons.mpr ⟨by unfold Plain; decide, fun c hc => ?_⟩) frames []
  rw [Nat.toString_eq_repr, Nat.toList_repr] at hc
  exact plain_of_isDigit (Decimal.digits_toDigits i c hc)

private theorem inner?_parameter {i : Nat} (h : parameter i = some v) :
    Reading.inner? parameter ⟨frame :: outer, .text (parameterText i)⟩ =
      some (frame, outer, v) := by
  have hdigits : (Nat.toDigits 10 i).all Char.isDigit = true :=
    List.all_eq_true.mpr (Decimal.digits_toDigits i)
  simp [parameterText, Reading.inner?, Operand.value?, Nat.toDigits_ne_nil, hdigits, h]

end Steps

end Formula

open Formula (evaluate? step Pending Reading Frame)

def HeightTerm.value? (parameter : Nat → Option ℚ) (t : HeightTerm) : Option ℚ := do
  let weight ← t.weight.value?
  let measured ← parameter (probeVariable t.probe)
  let target ← t.target.value?
  return weight * (measured + (if t.added then 1 else -1) * target)

def HeightExpr.value? (parameter : Nat → Option ℚ) (e : HeightExpr) : Option ℚ := do
  let nominal ← e.nominal.value?
  let corrections ← e.terms.mapM (HeightTerm.value? parameter)
  return nominal + corrections.sum

section Heights

variable {parameter : Nat → Option ℚ} {r : Reading} {outer : List Frame} {total v : ℚ}

theorem HeightTerm.isSome_of_value? {t : HeightTerm} (h : t.value? parameter = some v) :
    (parameter (probeVariable t.probe)).isSome = true := by
  simp only [HeightTerm.value?, Option.bind_eq_bind, Option.bind_eq_some_iff] at h
  obtain ⟨weight, -, measured, hmeasured, -⟩ := h
  rw [hmeasured]
  rfl

private theorem HeightTerm.toList_text (t : HeightTerm) :
    t.text.toList = '+' :: (t.weight.text.toList ++ '*' :: '[' ::
      (Formula.parameterText (probeVariable t.probe) ++
        (if t.added then '+' else '-') :: (t.target.text.toList ++ [']']))) := by
  cases hadded : t.added <;> simp [HeightTerm.text, Formula.parameterText, hadded]

private theorem HeightTerm.exists_pending {t : HeightTerm} (h : t.value? parameter = some v)
    (pending : Pending parameter r outer total) :
    ∃ r', t.text.toList.foldlM (step parameter) r = some r' ∧
      Pending parameter r' outer (total + v) := by
  simp only [HeightTerm.value?, Option.bind_eq_bind, Option.bind_eq_some_iff] at h
  obtain ⟨weight, hweight, measured, hmeasured, target, htarget, hv⟩ := h
  obtain rfl := Option.some.inj hv
  let inner : List Frame := ⟨total, 1 * weight⟩ :: outer
  have hfactor : step parameter ⟨⟨total, 1⟩ :: outer, .text t.weight.text.toList⟩ '*' =
      some ⟨inner, .text []⟩ := Formula.step_times (Formula.inner?_number hweight)
  have hopen : step parameter ⟨inner, .text []⟩ '[' = some ⟨⟨0, 1⟩ :: inner, .text []⟩ := rfl
  have hread : Pending parameter
      ⟨⟨0, 1⟩ :: inner, .text (Formula.parameterText (probeVariable t.probe))⟩ inner measured :=
    ⟨⟨0, 1⟩, measured, Formula.inner?_parameter hmeasured, by simp⟩
  have hless := Formula.step_sign t.added hread
  have hdiff : Pending parameter
      ⟨⟨measured, if t.added then 1 else -1⟩ :: inner, .text t.target.text.toList⟩ inner
      (measured + (if t.added then 1 else -1) * target) :=
    ⟨_, target, Formula.inner?_number htarget, rfl⟩
  refine ⟨⟨inner, .bracket (measured + (if t.added then 1 else -1) * target)⟩, ?_,
    ⟨total, 1 * weight⟩, _, rfl, by rw [one_mul]⟩
  rw [HeightTerm.toList_text, List.foldlM_cons, Formula.step_plus pending, Option.bind_eq_bind,
    Option.bind_some, List.foldlM_append, Formula.foldlM_number hweight]
  simp only [Option.bind_eq_bind, Option.bind_some, List.foldlM_cons, List.foldlM_append, hfactor,
    hopen, Formula.foldlM_parameter, hless, Formula.foldlM_number htarget,
    Formula.step_close hdiff, List.foldlM_nil]
  rfl

private theorem HeightTerm.exists_pending_join {ts : List HeightTerm} {vs : List ℚ}
    (h : ts.mapM (HeightTerm.value? parameter) = some vs)
    (pending : Pending parameter r outer total) :
    ∃ r', (String.join (ts.map HeightTerm.text)).toList.foldlM (step parameter) r = some r' ∧
      Pending parameter r' outer (total + vs.sum) := by
  induction ts generalizing vs r total with
  | nil =>
    obtain rfl := Option.some.inj h
    exact ⟨r, rfl, by simpa using pending⟩
  | cons t ts ih =>
    simp only [List.mapM_cons, Option.bind_eq_bind, Option.bind_eq_some_iff] at h
    obtain ⟨v, hv, vs', hvs, heq⟩ := h
    obtain rfl := Option.some.inj heq
    obtain ⟨r', hr', hpending⟩ := HeightTerm.exists_pending hv pending
    obtain ⟨r'', hr'', hall⟩ := ih hvs hpending
    refine ⟨r'', ?_, ?_⟩
    · rw [List.map_cons, String.join_cons, String.toList_append, List.foldlM_append, hr',
        Option.bind_eq_bind, Option.bind_some, hr'']
    · rwa [List.sum_cons, ← add_assoc]

/-- A machine computes the value of a height that is written as an expression. -/
theorem HeightExpr.evaluate?_text {e : HeightExpr} (h : e.value? parameter = some v) :
    evaluate? parameter e.text.toList = some v := by
  simp only [HeightExpr.value?, Option.bind_eq_bind, Option.bind_eq_some_iff] at h
  obtain ⟨nominal, hnominal, vs, hvs, heq⟩ := h
  obtain rfl := Option.some.inj heq
  unfold HeightExpr.text evaluate?
  split
  · next hterms =>
    rw [hterms] at hvs
    obtain rfl := Option.some.inj hvs
    rw [Formula.foldlM_number hnominal]
    simp [Formula.value?_number hnominal]
  · next ts hterms =>
    have hopen : step parameter ⟨[], .text []⟩ '[' = some ⟨[⟨0, 1⟩], .text []⟩ := rfl
    have hfirst : Pending parameter ⟨[⟨0, 1⟩], .text e.nominal.text.toList⟩ [] nominal :=
      ⟨⟨0, 1⟩, nominal, Formula.inner?_number hnominal, by simp⟩
    obtain ⟨r, hr, hall⟩ := HeightTerm.exists_pending_join hvs hfirst
    have htext : ("[" ++ e.nominal.text ++ String.join (e.terms.map HeightTerm.text) ++ "]").toList =
        '[' :: (e.nominal.text.toList ++
          ((String.join (e.terms.map HeightTerm.text)).toList ++ [']'])) := by simp
    rw [htext, List.foldlM_cons, hopen]
    simp only [Option.bind_eq_bind, Option.bind_some, List.foldlM_append,
      Formula.foldlM_number hnominal, hr, List.foldlM_cons, List.foldlM_nil,
      Formula.step_close hall]
    rfl

end Heights

end Toolpath
