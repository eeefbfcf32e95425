import Toolpath.Diagnostic
import Toolpath.Scalar

/-!
The texts of problems. Parameters go into a message one after the other, and a parameter that was
put in is searched for the places of later ones; numbers have no such places in them, so a message
about two numbers reads as it was written.
-/

set_option autoImplicit false

namespace Toolpath

def Numeral.IsPrinted (c : Char) : Prop := c.isDigit = true ∨ c ∈ ['-', '.', 'N', 'a', 'i', 'n', 'f']

namespace Decimal

def Digits (cs : List Char) : Prop := ∀ c ∈ cs, c.isDigit = true

theorem digits_toDigits (n : Nat) : Digits (Nat.toDigits 10 n) :=
  fun _ hc => Nat.isDigit_of_mem_toDigits (by decide) (by decide) hc

private theorem digits_zeros (n : Nat) : Digits (List.replicate n '0') := by
  intro c hc
  rw [List.eq_of_mem_replicate hc]
  rfl

private theorem Digits.append {cs ds : List Char} (h : Digits cs) (k : Digits ds) :
    Digits (cs ++ ds) :=
  fun c hc => (List.mem_append.mp hc).elim (h c) (k c)

theorem digits_padded (places n : Nat) : Digits (padded places n) :=
  (digits_zeros _).append (digits_toDigits n)

theorem digits_magnitude (m zeros : Nat) : Digits (magnitude m (.ofNat zeros)) := by
  rw [magnitude]
  split
  · exact fun c hc => List.mem_singleton.mp hc ▸ rfl
  · exact (digits_toDigits m).append (digits_zeros zeros)

theorem isDigit_or_eq_of_mem_magnitude {m : Nat} {e : Int} {c : Char} (h : c ∈ magnitude m e) :
    c.isDigit = true ∨ c = '.' := by
  cases e with
  | ofNat zeros => exact Or.inl (digits_magnitude m zeros c h)
  | negSucc k =>
    rcases List.mem_append.mp h with h | h
    · exact Or.inl (digits_toDigits _ c h)
    · rcases List.mem_cons.mp h with h | h
      · exact Or.inr h
      · exact Or.inl (digits_padded _ _ c h)

private theorem isPrinted_of_mem_magnitude {m : Nat} {e : Int} {c : Char} (h : c ∈ magnitude m e) :
    Numeral.IsPrinted c := by
  rcases isDigit_or_eq_of_mem_magnitude h with h | rfl
  · exact Or.inl h
  · exact Or.inr (by decide)

theorem magnitude_ne_nil (m : Nat) (e : Int) : magnitude m e ≠ [] := by
  cases e with
  | ofNat zeros =>
    simp only [magnitude]
    split
    · simp
    · simp [Nat.toDigits_ne_nil]
  | negSucc k => simp [magnitude]

end Decimal

namespace Numeral

theorem isPrinted_of_mem_text {n : Numeral} {c : Char} (h : c ∈ n.text.toList) : IsPrinted c := by
  cases n with
  | nan =>
    have hsubset : ['N', 'a', 'N'] ⊆ ['-', '.', 'N', 'a', 'i', 'n', 'f'] := by simp
    exact Or.inr (hsubset h)
  | infinite negative =>
    have hsubset : ['-', 'i', 'n', 'f'] ⊆ ['-', '.', 'N', 'a', 'i', 'n', 'f'] := by simp
    cases negative with
    | false => exact Or.inr (hsubset (List.mem_cons_of_mem _ h))
    | true => exact Or.inr (hsubset h)
  | finite d =>
    simp only [text, textBy, String.toList_ofList, Decimal.text] at h
    split at h
    · rcases List.mem_cons.mp h with rfl | h
      · exact Or.inr (by decide)
      · exact Decimal.isPrinted_of_mem_magnitude h
    · exact Decimal.isPrinted_of_mem_magnitude h

theorem text_ne_nil (n : Numeral) : n.text.toList ≠ [] := by
  cases n with
  | nan => decide
  | infinite negative => cases negative <;> decide
  | finite d =>
    simp only [text, textBy, String.toList_ofList, Decimal.text]
    split
    · simp
    · exact Decimal.magnitude_ne_nil _ _

private theorem not_isPrinted_brace : ¬ IsPrinted '{' := by
  unfold IsPrinted
  decide

theorem brace_not_mem_text (n : Numeral) : '{' ∉ n.text.toList :=
  fun h => not_isPrinted_brace (isPrinted_of_mem_text h)

end Numeral

namespace Diagnostic

private theorem replaceFrom_append {front : List Char} (h : '{' ∉ front) (index : Nat)
    (replacement rest : List Char) :
    replaceFrom (placeholder index) replacement 0 (front ++ rest) =
      front ++ replaceFrom (placeholder index) replacement 0 rest := by
  induction front with
  | nil => rfl
  | cons c front ih =>
    have hc : c ≠ '{' := fun heq => h (heq ▸ List.mem_cons_self)
    have hfront : '{' ∉ front := fun hmem => h (List.mem_cons_of_mem c hmem)
    have hnot : (placeholder index).isPrefixOf (c :: (front ++ rest)) = false := by
      simp [placeholder, List.isPrefixOf, hc.symm]
    rw [List.cons_append, replaceFrom, hnot]
    simp [ih hfront]

theorem fill_two {a b c : List Char} {p q : String} (ha : '{' ∉ a) (hb : '{' ∉ b) (hc : '{' ∉ c)
    (hp : '{' ∉ p.toList) :
    fill (a ++ (placeholder 0 ++ (b ++ (placeholder 1 ++ c)))) [p, q] =
      a ++ (p.toList ++ (b ++ (q.toList ++ c))) := by
  have first (rest : List Char) : replaceFrom (placeholder 0) p.toList 0 (placeholder 0 ++ rest) =
      p.toList ++ replaceFrom (placeholder 0) p.toList 0 rest := rfl
  have other (rest : List Char) : replaceFrom (placeholder 0) p.toList 0 (placeholder 1 ++ rest) =
      placeholder 1 ++ replaceFrom (placeholder 0) p.toList 0 rest := rfl
  have second (rest : List Char) : replaceFrom (placeholder 1) q.toList 0 (placeholder 1 ++ rest) =
      q.toList ++ replaceFrom (placeholder 1) q.toList 0 rest := rfl
  have last (index : Nat) (r : List Char) : replaceFrom (placeholder index) r 0 c = c := by
    have happend := replaceFrom_append hc index r []
    rw [List.append_nil] at happend
    rw [happend, replaceFrom, List.append_nil]
  have hfill : fill (a ++ (placeholder 0 ++ (b ++ (placeholder 1 ++ c)))) [p, q] =
      replaceFrom (placeholder 1) q.toList 0 (replaceFrom (placeholder 0) p.toList 0
        (a ++ (placeholder 0 ++ (b ++ (placeholder 1 ++ c))))) := rfl
  rw [hfill, replaceFrom_append ha, first, replaceFrom_append hb, other, last,
    replaceFrom_append ha, replaceFrom_append hp, replaceFrom_append hb, second, last]

section Text

variable {α : Type} [Scalar α]

/-- What is in front of the message. -/
def lead (c : Context α) : String := if c.isEmpty then "" else c.text ++ ": "

theorem text_eq_lead_append (d : Diagnostic α) :
    d.text = lead d.context ++ String.ofList (fill d.message.toList d.parameters) := by
  rw [Diagnostic.text, lead]
  split
  · rw [String.empty_append]
  · rfl

theorem text_error_single (c : Context α) (message : String) :
    (error c "{0}" [message]).text = lead c ++ message := by
  have hfill : fill "{0}".toList [message] = message.toList ++ [] := rfl
  rw [text_eq_lead_append]
  change lead c ++ String.ofList (fill "{0}".toList [message]) = _
  rw [hfill, List.append_nil, String.ofList_toList]

theorem exists_text (d : Diagnostic α) :
    ∃ front, d.text.toList = front ++ fill d.message.toList d.parameters :=
  ⟨(lead d.context).toList, by
    rw [text_eq_lead_append, String.toList_append, String.toList_ofList]⟩

end Text

end Diagnostic

end Toolpath
