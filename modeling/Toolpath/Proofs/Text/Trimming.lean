import Mathlib.Data.List.TakeWhile
import Toolpath.Text.Blank

/-!
What is left of a text when it is trimmed: its only part that has no white space at its ends and has
nothing but white space around it.
-/

set_option autoImplicit false

namespace Toolpath.Text

theorem trimLeft_append {cs : List Char} {c : Char} (rest : List Char) (hc : isBlank c = false) :
    trimLeft (cs ++ c :: rest) = trimLeft cs ++ c :: rest := by
  induction cs with
  | nil => simp [trimLeft, hc]
  | cons d cs ih =>
    cases hd : isBlank d with
    | false => simp [trimLeft, hd]
    | true => simpa [trimLeft, hd] using ih

theorem trimRight_append (cs : List Char) {c : Char} (rest : List Char)
    (hc : isBlank c = false) : trimRight (cs ++ c :: rest) = cs ++ c :: trimRight rest := by
  have hreverse : (cs ++ c :: rest).reverse = rest.reverse ++ c :: cs.reverse := by simp
  rw [trimRight, hreverse, trimLeft_append _ hc, trimRight]
  simp

theorem mem_of_mem_trimLeft {cs : List Char} {c : Char} (h : c ∈ trimLeft cs) : c ∈ cs :=
  (List.dropWhile_sublist isBlank).subset h

theorem mem_of_mem_trim {cs : List Char} {c : Char} (h : c ∈ trim cs) : c ∈ cs := by
  rw [trim, trimRight, List.mem_reverse] at h
  have hmem := mem_of_mem_trimLeft h
  rw [List.mem_reverse] at hmem
  exact mem_of_mem_trimLeft hmem

private theorem trimLeft_of_blank {cs : List Char} (h : ∀ c ∈ cs, isBlank c = true) :
    trimLeft cs = [] :=
  List.dropWhile_eq_nil_iff.mpr h

private theorem trimRight_of_blank {cs : List Char} (h : ∀ c ∈ cs, isBlank c = true) :
    trimRight cs = [] := by
  rw [trimRight, trimLeft_of_blank fun c hc => h c (List.mem_reverse.mp hc), List.reverse_nil]

/-- A part of a text without white space at its ends, and with nothing else around it. -/
structure Trimmed (text part : List Char) : Prop where
  around : ∃ front back, text = front ++ part ++ back ∧ ∀ c ∈ front ++ back, isBlank c = true
  first : ∀ c, part.head? = some c → isBlank c = false
  last : ∀ c, part.getLast? = some c → isBlank c = false

private theorem trimmed_trim (text : List Char) : Trimmed text (trim text) where
  around := by
    refine ⟨text.takeWhile isBlank, ((trimLeft text).reverse.takeWhile isBlank).reverse, ?_, ?_⟩
    · have hright : trim text ++ ((trimLeft text).reverse.takeWhile isBlank).reverse =
          trimLeft text := by
        rw [trim, trimRight, ← List.reverse_append, trimLeft.eq_def (trimLeft text).reverse,
          List.takeWhile_append_dropWhile, List.reverse_reverse]
      rw [List.append_assoc, hright, trimLeft, List.takeWhile_append_dropWhile]
    · intro c hc
      rcases List.mem_append.mp hc with hc | hc
      · exact List.mem_takeWhile_imp hc
      · exact List.mem_takeWhile_imp (List.mem_reverse.mp hc)
  first c hc := by
    rw [trim, ← trimLeft_trimRight (trimLeft_trimLeft text)] at hc
    exact head?_trimLeft hc
  last c hc := by
    rw [trim, trimRight, List.getLast?_reverse] at hc
    exact head?_trimLeft hc

theorem trimmed_iff {text part : List Char} : Trimmed text part ↔ part = trim text := by
  refine ⟨fun h => ?_, fun h => h ▸ trimmed_trim text⟩
  obtain ⟨front, back, rfl, hblank⟩ := h.around
  have hfront : trimLeft front = [] :=
    trimLeft_of_blank fun c hc => hblank c (List.mem_append_left _ hc)
  have hback : trimRight back = [] :=
    trimRight_of_blank fun c hc => hblank c (List.mem_append_right _ hc)
  cases part with
  | nil =>
    have hall : trimLeft (front ++ [] ++ back) = [] :=
      trimLeft_of_blank fun c hc => hblank c (by simpa using hc)
    rw [trim, hall]
    rfl
  | cons c rest =>
    have hleft : trimLeft (front ++ c :: rest ++ back) = c :: rest ++ back := by
      rw [List.append_assoc, List.cons_append, trimLeft_append _ (h.first c rfl), hfront]
      rfl
    obtain ⟨before, d, hd⟩ := (List.eq_nil_or_concat (c :: rest)).resolve_left (by simp)
    rw [List.concat_eq_append] at hd
    have hlast : isBlank d = false := h.last d (by rw [hd, List.getLast?_concat])
    rw [trim, hleft, hd, List.append_assoc, List.singleton_append, trimRight_append _ _ hlast,
      hback]

end Toolpath.Text
