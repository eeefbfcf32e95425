import Toolpath.Proofs.Diagnostic.Firsts

/-!
A report after any run of problems. Of a new report, what is kept, what is passed on and the number
of errors all go with the problems that read like none before them, and no two of these read alike.
-/

set_option autoImplicit false

namespace Toolpath

variable {α : Type} [Scalar α]

namespace Diagnostic

private theorem firsts_congr {known known' : List String} (h : ∀ text, text ∈ known ↔ text ∈ known')
    (ds : List (Diagnostic α)) : firsts known ds = firsts known' ds := by
  induction ds generalizing known known' with
  | nil => rfl
  | cons d ds ih =>
    have hsame : known.contains d.text = known'.contains d.text := by
      rw [Bool.eq_iff_iff, List.contains_iff_mem, List.contains_iff_mem, h]
    have hrest : firsts (known ++ [d.text]) ds = firsts (known' ++ [d.text]) ds := by
      apply ih
      simp [h]
    rw [firsts, firsts, hsame, hrest, ih h]

private theorem firsts_eq_filter (known : List String) (ds : List (Diagnostic α)) :
    firsts known ds = (ds.zipIdx.filter fun (d, i) =>
      d.text ∉ known ++ (ds.take i).map text).map Prod.fst := by
  induction ds generalizing known with
  | nil => rfl
  | cons d ds ih =>
    -- Behind the first problem, what is before another one is it and what is before that in the rest.
    have hrest : ((d :: ds).zipIdx.tail.filter fun (e, i) =>
        e.text ∉ known ++ ((d :: ds).take i).map text).map Prod.fst =
          firsts (known ++ [d.text]) ds := by
      rw [ih, List.zipIdx_cons, List.tail_cons, List.zipIdx_succ, List.filter_map, List.map_map]
      simp [Function.comp_def]
    rw [firsts]
    split
    · next hknown =>
      have hmem : d.text ∈ known := by simpa using hknown
      have hagain : firsts known ds = firsts (known ++ [d.text]) ds := by
        apply firsts_congr
        intro text
        rw [List.mem_append, List.mem_singleton]
        exact ⟨Or.inl, fun h => h.elim id fun heq => heq ▸ hmem⟩
      rw [hagain, ← hrest, List.zipIdx_cons, List.filter_cons_of_neg (by simpa using hmem)]
      rfl
    · next hunknown =>
      have hnot : d.text ∉ known := by simpa using hunknown
      rw [← hrest, List.zipIdx_cons, List.filter_cons_of_pos (by simpa using hnot), List.map_cons]
      rfl

private theorem nodup_texts_firsts (known : List String) (ds : List (Diagnostic α)) :
    ((firsts known ds).map text).Nodup := by
  induction ds generalizing known with
  | nil => exact List.nodup_nil
  | cons d ds ih =>
    rw [firsts]
    split
    · exact ih known
    · rw [List.map_cons, List.nodup_cons]
      refine ⟨fun hmem => ?_, ih _⟩
      obtain ⟨e, he, hsame⟩ := List.mem_map.mp hmem
      have hfree := (Report.mem_firsts_iff.mp he).1
      simp [hsame] at hfree

end Diagnostic

namespace Report

/-- A new report keeps exactly the first problem of each text. After any run of problems it has
those that read like none before them, in their order; it has passed on these and no others, each
once and in the same order; their texts are pairwise different; and its number of errors is that of
the errors among them. -/
theorem keeps_firsts (ds : List (Diagnostic α)) :
    let r := (empty : Report α).addAll ds
    r.reported = (ds.zipIdx.filter fun (d, i) =>
        d.text ∉ (ds.take i).map Diagnostic.text).map Prod.fst ∧
      r.log = r.reported.map LogEntry.problem ∧
      r.texts.Nodup ∧
      r.errorCount = r.reported.countP fun d => d.severity = .error := by
  intro r
  obtain ⟨hreported, hlog⟩ := addAll_eq_firsts (empty : Report α) ds
  have hkept : r.reported = Diagnostic.firsts [] ds := hreported
  refine ⟨?_, ?_, ?_, ?_⟩
  · rw [hkept, Diagnostic.firsts_eq_filter]
    rfl
  · rw [hkept]
    exact hlog
  · rw [texts, hkept]
    exact Diagnostic.nodup_texts_firsts [] ds
  · rw [r.errorCount_eq]
    exact List.countP_congr fun d _ => by simp

end Report

end Toolpath
