import Mathlib.Data.List.Infix
import Toolpath.Diagnostic

/-!
What a report keeps. Of the problems with one text it keeps the first, so an error is lost only to a
problem that reads the same.
-/

set_option autoImplicit false

namespace Toolpath.Report

variable {α : Type} [Scalar α]

private theorem mem_seen_iff (r : Report α) (text : String) : text ∈ r.seen ↔ text ∈ r.texts :=
  r.mem_seen text

theorem add_of_known {r : Report α} {d : Diagnostic α} (h : d.text ∈ r.texts) : r.add d = r := by
  have hseen : r.seen.contains d.text = true := by
    simpa [mem_seen_iff] using h
  exact if_pos hseen

theorem add_of_unknown {r : Report α} {d : Diagnostic α} (h : d.text ∉ r.texts) :
    (r.add d).reported = r.reported ++ [d] ∧ (r.add d).log = r.log ++ [.problem d] := by
  have hseen : ¬ r.seen.contains d.text = true := by
    simpa [mem_seen_iff] using h
  unfold add
  rw [if_neg hseen]
  exact ⟨rfl, rfl⟩

private theorem reported_prefix_add (r : Report α) (d : Diagnostic α) :
    r.reported <+: (r.add d).reported := by
  by_cases h : d.text ∈ r.texts
  · rw [add_of_known h]
  · rw [(add_of_unknown h).1]
    exact List.prefix_append _ _

private theorem mem_texts_add (r : Report α) (d : Diagnostic α) : d.text ∈ (r.add d).texts := by
  by_cases h : d.text ∈ r.texts
  · rwa [add_of_known h]
  · simp [texts, (add_of_unknown h).1]

private theorem reported_prefix_addAll (r : Report α) (ds : List (Diagnostic α)) :
    r.reported <+: (r.addAll ds).reported := by
  induction ds generalizing r with
  | nil => exact List.prefix_rfl
  | cons d ds ih => exact (reported_prefix_add r d).trans (ih (r.add d))

theorem mem_texts_addAll (r : Report α) {ds : List (Diagnostic α)} {d : Diagnostic α}
    (h : d ∈ ds) : d.text ∈ (r.addAll ds).texts := by
  induction ds generalizing r with
  | nil => cases h
  | cons e ds ih =>
    rcases List.mem_cons.mp h with rfl | h
    · have hprefix := (reported_prefix_addAll (r.add d) ds).map Diagnostic.text
      exact hprefix.subset (mem_texts_add r d)
    · exact ih (r.add e) h

theorem addAll_of_known {r : Report α} {ds : List (Diagnostic α)}
    (h : ∀ d ∈ ds, d.text ∈ r.texts) : r.addAll ds = r := by
  induction ds with
  | nil => rfl
  | cons d ds ih =>
    obtain ⟨hd, hds⟩ := List.forall_mem_cons.mp h
    have hrest : r.addAll (d :: ds) = (r.add d).addAll ds := rfl
    rw [hrest, add_of_known hd]
    exact ih hds

theorem reported_addAll_subset (r : Report α) (ds : List (Diagnostic α)) :
    (r.addAll ds).reported ⊆ r.reported ++ ds := by
  induction ds generalizing r with
  | nil => simp [addAll]
  | cons d ds ih =>
    have hadd : (r.add d).reported ⊆ r.reported ++ [d] := by
      by_cases h : d.text ∈ r.texts
      · rw [add_of_known h]
        exact List.subset_append_left _ _
      · rw [(add_of_unknown h).1]
        exact List.Subset.refl _
    intro e he
    rcases List.mem_append.mp (ih (r.add d) he) with he | he
    · have hmem := hadd he
      simp only [List.mem_append, List.mem_cons] at hmem ⊢
      tauto
    · simp [he]

theorem hasErrors_eq_false_iff (r : Report α) :
    r.hasErrors = false ↔ ∀ d ∈ r.reported, d.severity ≠ .error := by
  have hcount : r.hasErrors = false ↔ r.errorCount = 0 := by
    simp [hasErrors]
  rw [hcount, r.errorCount_eq, List.countP_eq_zero]
  simp

theorem hasErrors_eq_false_of_addAll {r : Report α} {ds : List (Diagnostic α)}
    (h : (r.addAll ds).hasErrors = false) : r.hasErrors = false := by
  rw [hasErrors_eq_false_iff] at h ⊢
  exact fun d hd => h d ((reported_prefix_addAll r ds).subset hd)

/-- In a report without errors all that was added is a warning or reads like one. -/
theorem exists_warning_of_hasErrors_eq_false {r : Report α} {ds : List (Diagnostic α)}
    (h : (r.addAll ds).hasErrors = false) {d : Diagnostic α} (hd : d ∈ ds) :
    ∃ w ∈ r.reported ++ ds, w.severity = .warning ∧ w.text = d.text := by
  obtain ⟨w, hw, htext⟩ := List.mem_map.mp (mem_texts_addAll r hd)
  refine ⟨w, reported_addAll_subset r ds hw, ?_, htext⟩
  have hnot := (hasErrors_eq_false_iff _).mp h w hw
  cases hseverity : w.severity with
  | warning => rfl
  | error => exact absurd hseverity hnot

end Toolpath.Report
