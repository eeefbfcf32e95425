import Toolpath.Proofs.Builder.Calls
import Toolpath.Proofs.Diagnostic.Collected
import Toolpath.Proofs.Diagnostic.Filling

/-!
What a builder reports. All its problems are errors, but for the warning about a helix, and no error
about values that do not go together reads like that warning. So a report without errors has none
that was lost.
-/

set_option autoImplicit false

namespace Toolpath

variable {α : Type} [Scalar α]

private theorem Diagnostic.exists_text_two (severity : Severity) (context : Context α)
    {message : String} (m n : Numeral) (a b c : List Char)
    (hmessage : message.toList = a ++ (placeholder 0 ++ (b ++ (placeholder 1 ++ c))))
    (ha : '{' ∉ a) (hb : '{' ∉ b) (hc : '{' ∉ c) :
    ∃ (front : List Char) (last : Numeral),
      (⟨severity, context, message, [m.text, n.text]⟩ : Diagnostic α).text.toList =
        front ++ (last.text.toList ++ c) := by
  obtain ⟨front, hfront⟩ :=
    (⟨severity, context, message, [m.text, n.text]⟩ : Diagnostic α).exists_text
  rw [hmessage, fill_two ha hb hc m.brace_not_mem_text] at hfront
  exact ⟨front ++ (a ++ (m.text.toList ++ b)), n, by rw [hfront]; simp⟩

def IsRuleProblem (d : Diagnostic α) : Prop := ∃ s : Settings α, d ∈ s.problems

private theorem IsRuleProblem.exists_text {d : Diagnostic α} (h : IsRuleProblem d) :
    ∃ (front : List Char) (n : Numeral), d.text.toList = front ++ n.text.toList := by
  obtain ⟨s, hd⟩ := h
  obtain ⟨context, message, m, n, a, b, rfl, hmessage, ha, hb⟩ := s.compares_of_mem_problems hd
  rw [← List.append_nil (Diagnostic.placeholder 1)] at hmessage
  obtain ⟨front, last, htext⟩ :=
    Diagnostic.exists_text_two .error context m n a b [] hmessage ha hb (by simp)
  rw [List.append_nil] at htext
  exact ⟨front, last, htext⟩

namespace Build

private theorem exists_text_helixProblems {settings : Settings α} {context : Context α} {radius : α}
    {d : Diagnostic α} (h : d ∈ helixProblems settings context radius) :
    ∃ (front : List Char) (n : Numeral),
      d.text.toList = front ++ (n.text.toList ++ ", drilling instead".toList) := by
  unfold helixProblems at h
  split at h
  · next bit hbit =>
    split at h
    · rw [List.mem_singleton.mp h]
      exact Diagnostic.exists_text_two .warning context (Scalar.coordinateNumeral radius)
        (Scalar.coordinateNumeral (bit / 2.0)) "helix radius ".toList
        " is not larger than the bit radius ".toList ", drilling instead".toList rfl (by decide)
        (by decide) (by decide)
    · cases h
  · cases h

theorem text_ne_of_isRuleProblem {d w : Diagnostic α} (h : IsRuleProblem d) {settings : Settings α}
    {context : Context α} {radius : α} (hw : w ∈ helixProblems settings context radius) :
    w.text ≠ d.text := by
  intro heq
  obtain ⟨front, n, hd⟩ := h.exists_text
  obtain ⟨other, bit, hword⟩ := exists_text_helixProblems hw
  rw [heq, hd] at hword
  -- One text ends in a number, the other in a letter that no number has.
  have hlast := congrArg List.getLast? hword
  rw [← List.append_assoc, List.getLast?_append_of_ne_nil _ n.text_ne_nil,
    List.getLast?_append_of_ne_nil _ (by decide)] at hlast
  have hmem : 'd' ∈ n.text.toList := List.mem_of_getLast? (hlast.trans rfl)
  exact absurd (Numeral.isPrinted_of_mem_text hmem) (by unfold Numeral.IsPrinted; decide)

def AllKnown (s : BuildState α) : Prop := ∀ d ∈ s.problems, Known d

private theorem AllKnown.report {s : BuildState α} (h : AllKnown s) {d : Diagnostic α}
    (hd : Known d) :
    AllKnown (s.report [d]) := by
  intro e he
  rcases List.mem_append.mp he with he | he
  · exact h e he
  · exact List.mem_singleton.mp he ▸ hd

private theorem Call.allKnown {lib : Library α} {room : Nat} {key : ModelKey} {s s' : BuildState α}
    {outcome : Option (Model α)} (h : Call lib room key s outcome s') (hs : AllKnown s)
    (hplace : ∀ n, room = n + 1 → ∀ key s, AllKnown s →
      AllKnown ((buildWithin lib n key).run s).2) : AllKnown s' := by
  cases h with
  | kept found => exact hs
  | cycle => exact hs.report (Or.inl rfl)
  | nested => exact hs.report (Or.inl rfl)
  | undefined => exact hs.report (Or.inl rfl)
  | @built n layer _ _ _ _ _ left _ happens =>
    have keeps : ∀ k : ModelKey, k.name ∈ layer.references →
        Keeps (fun _ => False) AllKnown (fun _ => True) (buildWithin lib n k) :=
      fun k _ t ht => Or.inr ⟨hplace n left k t ht, trivial⟩
    have hafter := happens.keeps (buildWithin_grows lib n)
      (fun _ _ _ h => h) (fun t d hd ht => ht.report hd) keeps hs
    exact (hafter.resolve_left id).1

private theorem buildWithin_allKnown (lib : Library α) (room : Nat) (key : ModelKey)
    (s : BuildState α) (hs : AllKnown s) : AllKnown ((buildWithin lib room key).run s).2 :=
  buildWithin_induction lib (P := fun _ s _ s' => AllKnown s → AllKnown s')
    (fun _ _ _ _ _ call hplace hs => call.allKnown hs hplace) room key s hs

theorem builds_allKnown (lib : Library α) (calls : List (PathName × Bindings)) :
    AllKnown ((builds lib calls).run initial).2 := by
  have keeps : ∀ key : ModelKey, Keeps (fun _ => False) AllKnown (fun _ => True)
      (build lib key.name key.bindings) :=
    fun key s hs => Or.inr ⟨buildWithin_allKnown lib _ key s hs, trivial⟩
  have hinitial : AllKnown (initial : BuildState α) := by simp [AllKnown, initial]
  have hafter := builds_keep (fun _ _ _ h => h) keeps calls hinitial
  exact (hafter.resolve_left id).1

end Build

end Toolpath
