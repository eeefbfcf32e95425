import Toolpath.Binary64
import Toolpath.Proofs.Diagnostic.Collected

/-!
Which problems a report keeps: the first of each text, whatever it is. So an error counts unless a
warning with the same text was there before, and a report has errors exactly if there is an error
that no such warning hides.
-/

set_option autoImplicit false

namespace Toolpath

variable {α : Type} [Scalar α]

/-- The problems of a list whose text is neither known nor that of a problem before them. -/
def Diagnostic.firsts : List String → List (Diagnostic α) → List (Diagnostic α)
  | _, [] => []
  | known, d :: rest =>
    if known.contains d.text then firsts known rest else d :: firsts (known ++ [d.text]) rest

namespace Report

open Diagnostic (firsts)

/-- A report keeps and passes on the first problem of each text that it does not know. -/
theorem addAll_eq_firsts (r : Report α) (ds : List (Diagnostic α)) :
    (r.addAll ds).reported = r.reported ++ firsts r.texts ds ∧
      (r.addAll ds).log = r.log ++ (firsts r.texts ds).map LogEntry.problem := by
  induction ds generalizing r with
  | nil => simp [addAll, firsts]
  | cons d ds ih =>
    have hrest : r.addAll (d :: ds) = (r.add d).addAll ds := rfl
    rw [hrest, (ih (r.add d)).1, (ih (r.add d)).2, firsts]
    split
    · next hknown =>
      rw [add_of_known (by simpa using hknown)]
      exact ⟨rfl, rfl⟩
    · next hunknown =>
      obtain ⟨hreported, hlog⟩ := add_of_unknown (r := r) (d := d) (by simpa using hunknown)
      simp [texts, hreported, hlog]

private theorem reported_addAll (r : Report α) (ds : List (Diagnostic α)) :
    (r.addAll ds).reported = r.reported ++ firsts r.texts ds :=
  (addAll_eq_firsts r ds).1

theorem mem_firsts_iff {known : List String} {ds : List (Diagnostic α)} {d : Diagnostic α} :
    d ∈ firsts known ds ↔ d.text ∉ known ∧ ∃ before after, ds = before ++ d :: after ∧
      ∀ e ∈ before, e.text ≠ d.text := by
  induction ds generalizing known with
  | nil => simp [firsts]
  | cons e ds ih =>
    rw [firsts]
    constructor
    · intro h
      split at h
      · next hknown =>
        obtain ⟨hfree, before, after, rfl, hbefore⟩ := ih.mp h
        refine ⟨hfree, e :: before, after, rfl, List.forall_mem_cons.mpr ⟨?_, hbefore⟩⟩
        exact fun hsame => hfree (hsame ▸ by simpa using hknown)
      · next hunknown =>
        rcases List.mem_cons.mp h with rfl | h
        · exact ⟨by simpa using hunknown, [], ds, rfl, by simp⟩
        · obtain ⟨hfree, before, after, rfl, hbefore⟩ := ih.mp h
          rw [List.mem_append, not_or, List.mem_singleton] at hfree
          refine ⟨hfree.1, e :: before, after, rfl, List.forall_mem_cons.mpr ⟨?_, hbefore⟩⟩
          exact fun hsame => hfree.2 hsame.symm
    · rintro ⟨hfree, before, after, hsplit, hbefore⟩
      cases before with
      | nil =>
        obtain ⟨rfl, rfl⟩ := List.cons_eq_cons.mp hsplit
        rw [if_neg (by simpa using hfree)]
        exact List.mem_cons_self
      | cons first before =>
        obtain ⟨rfl, rfl⟩ := List.cons_eq_cons.mp hsplit
        obtain ⟨hother, hbefore⟩ := List.forall_mem_cons.mp hbefore
        split
        · exact ih.mpr ⟨hfree, before, after, rfl, hbefore⟩
        · refine List.mem_cons_of_mem _ (ih.mpr ⟨?_, before, after, rfl, hbefore⟩)
          simp [hfree, hother.symm]

private theorem hasErrors_eq_true_iff (r : Report α) :
    r.hasErrors = true ↔ ∃ d ∈ r.reported, d.severity = .error := by
  rw [← Bool.not_eq_false, hasErrors_eq_false_iff]
  simp

/-- A new report has errors exactly if some error was added before which no warning with its text
was. -/
theorem hasErrors_addAll_iff (ds : List (Diagnostic α)) :
    (empty.addAll ds).hasErrors = true ↔
      ∃ before d after, ds = before ++ d :: after ∧ d.severity = .error ∧
        ∀ w ∈ before, w.severity = .warning → w.text ≠ d.text := by
  have hreported : (empty.addAll ds).reported = firsts [] ds := reported_addAll empty ds
  rw [hasErrors_eq_true_iff, hreported]
  constructor
  · rintro ⟨d, hd, herror⟩
    obtain ⟨-, before, after, hsplit, hbefore⟩ := mem_firsts_iff.mp hd
    exact ⟨before, d, after, hsplit, herror, fun w hw _ => hbefore w hw⟩
  · rintro ⟨before, d, after, rfl, herror, hbefore⟩
    -- What is kept is the first problem with the text of the error, and it is no warning.
    cases hfirst : before.find? fun e => e.text == d.text with
    | none =>
      have hnew : ∀ e ∈ before, e.text ≠ d.text := by
        simpa using List.find?_eq_none.mp hfirst
      exact ⟨d, mem_firsts_iff.mpr ⟨by simp, before, after, rfl, hnew⟩, herror⟩
    | some e =>
      obtain ⟨hsame, earlier, later, rfl, hearlier⟩ := List.find?_eq_some_iff_append.mp hfirst
      rw [beq_iff_eq] at hsame
      refine ⟨e, mem_firsts_iff.mpr ⟨by simp, earlier, later ++ d :: after, by simp, ?_⟩, ?_⟩
      · rw [hsame]
        simpa using hearlier
      · cases hseverity : e.severity with
        | error => rfl
        | warning => exact absurd hsame (hbefore e (by simp) hseverity)

section Masked

open Binary64

/-- A warning, and an error with its text. -/
def masked : List (Diagnostic Float) :=
  [.warning .nowhere "bit wider than hole {0}" ["2.000"],
    .error .nowhere "bit wider than {0} {1}" ["hole", "2.000"]]

theorem error_hidden_in_masked :
    (∃ d ∈ masked, d.severity = .error) ∧ (empty.addAll masked).hasErrors = false := by
  refine ⟨?_, ?_⟩
  · simp [masked, Diagnostic.error]
  · decide +kernel

end Masked

end Report

end Toolpath
