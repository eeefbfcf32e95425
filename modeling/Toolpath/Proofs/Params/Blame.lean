import Toolpath.Binary64
import Toolpath.Params.Settings
import Toolpath.Proofs.Diagnostic.Collected

/-!
Where broken rules are reported: at the innermost overlay that sets one of the parameters of the
rule. Overlays further in that set none of them change neither the values of the rule nor the place,
so that a report, which keeps each text once, has one problem for a rule that is broken further out.
-/

set_option autoImplicit false

namespace Toolpath

variable {α : Type}

/-- The rules about values that go together. -/
inductive Rule
  | bottomBelowTop
  | barsInMaterial
  | sweepAboveTop

namespace Rule

def fields : Rule → List Field
  | bottomBelowTop => [.top, .bottom]
  | barsInMaterial => [.barHeight, .top, .bottom]
  | sweepAboveTop => [.sweepHeight, .top]

private theorem top_mem_fields (rule : Rule) : Field.top ∈ rule.fields := by
  cases rule <;> decide

def allFields : List Field := [.top, .bottom, .barHeight, .sweepHeight]

private theorem fields_subset (rule : Rule) : rule.fields ⊆ allFields := by
  cases rule <;> decide

end Rule

namespace Settings

/-- The innermost overlay that sets one of some parameters: one does, and none of those further
in. -/
def Innermost (s : Settings α) (fields : List Field) (o : Overlay α) : Prop :=
  ∃ inner outer, s.overlays = inner ++ o :: outer ∧
    (∀ i ∈ inner, ∀ f ∈ fields, i.get? f = none) ∧ ∃ f ∈ fields, (o.get? f).isSome = true

/-- Settings with more overlays, the last one innermost. -/
def pushAll (s : Settings α) (overlays : List (Overlay α)) : Settings α := overlays.foldl push s

private theorem overlays_pushAll (s : Settings α) (overlays : List (Overlay α)) :
    (s.pushAll overlays).overlays = overlays.reverse ++ s.overlays := by
  induction overlays generalizing s with
  | nil => rfl
  | cons o overlays ih =>
    refine (ih (s.push o)).trans ?_
    simp [push]

section Unset

variable {fields : List Field} {s : Settings α} {inner : List (Overlay α)}
  (unset : ∀ o ∈ inner, ∀ f ∈ fields, o.get? f = none)

include unset

private theorem get?_pushAll {f : Field} (hf : f ∈ fields) :
    (s.pushAll inner).get? f = s.get? f := by
  have hnone : inner.reverse.findSome? (fun o => o.get? f) = none :=
    List.findSome?_eq_none_iff.mpr fun o ho => unset o (List.mem_reverse.mp ho) f hf
  rw [get?, overlays_pushAll, List.findSome?_append, hnone]
  rfl

private theorem find?_pushAll :
    (s.pushAll inner).overlays.find? (fun o => fields.any fun f => (o.get? f).isSome) =
      s.overlays.find? fun o => fields.any fun f => (o.get? f).isSome := by
  have hnone : inner.reverse.find? (fun o => fields.any fun f => (o.get? f).isSome) = none := by
    refine List.find?_eq_none.mpr fun o ho => ?_
    have ho := unset o (List.mem_reverse.mp ho)
    simpa using ho
  rw [overlays_pushAll, List.find?_append, hnone]
  rfl

end Unset

private theorem exists_innermost {s : Settings α} {fields : List Field} {f : Field}
    (hf : f ∈ fields) (set : (s.get? f).isSome = true) :
    ∃ o, s.overlays.find? (fun o => fields.any fun f => (o.get? f).isSome) = some o ∧
      s.Innermost fields o := by
  obtain ⟨value, hvalue⟩ := Option.isSome_iff_exists.mp set
  obtain ⟨setter, hsetter, hset⟩ := List.exists_of_findSome?_eq_some hvalue
  have hfound : (s.overlays.find? fun o => fields.any fun f => (o.get? f).isSome).isSome = true := by
    rw [List.find?_isSome]
    exact ⟨setter, hsetter, List.any_eq_true.mpr ⟨f, hf, by simp [hset]⟩⟩
  obtain ⟨o, ho⟩ := Option.isSome_iff_exists.mp hfound
  obtain ⟨hany, inner, outer, hsplit, hinner⟩ := List.find?_eq_some_iff_append.mp ho
  refine ⟨o, ho, inner, outer, hsplit, fun i hi f hf => ?_, List.any_eq_true.mp hany⟩
  have hi := hinner i hi
  simp only [Bool.not_eq_true', List.any_eq_false] at hi
  simpa using hi f hf

private theorem blame_of_find? {s : Settings α} {fields : List Field} {o : Overlay α}
    (h : s.overlays.find? (fun o => fields.any fun f => (o.get? f).isSome) = some o)
    (located : o.context.isEmpty = false) : s.blame fields = o.context := by
  rw [blame, h]
  exact if_neg (by simp [located])

private theorem exists_mem_of_top {defaults : Defaults α} {outer : List (Overlay α)}
    (h : (((ofDefaults defaults).pushAll outer).get? .top).isSome = true) :
    ∃ o ∈ outer, (o.get? .top).isSome = true := by
  obtain ⟨value, hvalue⟩ := Option.isSome_iff_exists.mp h
  obtain ⟨o, ho, hset⟩ := List.exists_of_findSome?_eq_some hvalue
  rw [overlays_pushAll, List.mem_append, List.mem_reverse] at ho
  rcases ho with ho | ho
  · exact ⟨o, ho, by simp [hset]⟩
  · obtain rfl : o = defaults.overlay := List.mem_singleton.mp ho
    cases hset

variable [Scalar α]

/-- A rule that the values break, with the message about it. -/
inductive Breaks (s : Settings α) : Rule → String → List String → Prop
  | bottomBelowTop {top bottom : α} (htop : s.get? .top = some top)
      (hbottom : s.get? .bottom = some bottom) (above : top < bottom) :
      Breaks s .bottomBelowTop "Bottom {0} is above Top {1}"
        [Scalar.plain bottom, Scalar.plain top]
  | barsInMaterial {top bottom height : α} (htop : s.get? .top = some top)
      (hbottom : s.get? .bottom = some bottom) (hheight : s.get? .barHeight = some height)
      (high : top - bottom < height) :
      Breaks s .barsInMaterial "BarHeight {0} exceeds material thickness {1}"
        [Scalar.plain height, Scalar.plain (top - bottom)]
  | sweepAboveTop {top sweep : α} (htop : s.get? .top = some top)
      (hsweep : s.get? .sweepHeight = some sweep) (below : sweep < top) :
      Breaks s .sweepAboveTop "SweepHeight {0} is below Top {1}"
        [Scalar.plain sweep, Scalar.plain top]

private theorem Breaks.top {s : Settings α} {rule : Rule} {message : String}
    {parameters : List String}
    (h : s.Breaks rule message parameters) : (s.get? .top).isSome = true := by
  cases h with
  | bottomBelowTop htop | barsInMaterial htop | sweepAboveTop htop => simp [htop]

private theorem mem_problems_iff {s : Settings α} {d : Diagnostic α} :
    d ∈ s.problems ↔ ∃ rule message parameters, s.Breaks rule message parameters ∧
      d = .error (s.blame rule.fields) message parameters := by
  simp only [problems, List.mem_append, Option.mem_toList]
  constructor
  · rintro ((h | h) | h)
    · simp only [bottomProblem, Option.bind_eq_bind, Option.bind_eq_some_iff] at h
      obtain ⟨top, htop, bottom, hbottom, h⟩ := h
      split at h
      · next above => exact ⟨_, _, _, .bottomBelowTop htop hbottom above, (Option.some.inj h).symm⟩
      · cases h
    · simp only [barProblem, Option.bind_eq_bind, Option.bind_eq_some_iff] at h
      obtain ⟨top, htop, bottom, hbottom, height, hheight, h⟩ := h
      split at h
      · next high =>
        exact ⟨_, _, _, .barsInMaterial htop hbottom hheight high, (Option.some.inj h).symm⟩
      · cases h
    · simp only [sweepProblem, Option.bind_eq_bind, Option.bind_eq_some_iff] at h
      obtain ⟨top, htop, sweep, hsweep, h⟩ := h
      split at h
      · next below => exact ⟨_, _, _, .sweepAboveTop htop hsweep below, (Option.some.inj h).symm⟩
      · cases h
  · rintro ⟨rule, message, parameters, hbreaks, rfl⟩
    cases hbreaks with
    | bottomBelowTop htop hbottom above =>
      exact .inl (.inl (by simp [bottomProblem, htop, hbottom, above, Rule.fields]))
    | barsInMaterial htop hbottom hheight high =>
      exact .inl (.inr (by simp [barProblem, htop, hbottom, hheight, high, Rule.fields]))
    | sweepAboveTop htop hsweep below =>
      exact .inr (by simp [sweepProblem, htop, hsweep, below, Rule.fields])

private theorem Breaks.congr {s t : Settings α} (h : ∀ f ∈ Rule.allFields, s.get? f = t.get? f)
    {rule : Rule} {message : String} {parameters : List String}
    (breaks : s.Breaks rule message parameters) : t.Breaks rule message parameters := by
  cases breaks with
  | bottomBelowTop htop hbottom above =>
    rw [h _ (by decide)] at htop hbottom
    exact .bottomBelowTop htop hbottom above
  | barsInMaterial htop hbottom hheight high =>
    rw [h _ (by decide)] at htop hbottom hheight
    exact .barsInMaterial htop hbottom hheight high
  | sweepAboveTop htop hsweep below =>
    rw [h _ (by decide)] at htop hsweep
    exact .sweepAboveTop htop hsweep below

section Located

variable {defaults : Defaults α} {outer inner : List (Overlay α)} {rule : Rule} {message : String}
  {parameters : List String}

private theorem exists_blamed
    (breaks : ((ofDefaults defaults).pushAll outer).Breaks rule message parameters) :
    ∃ o ∈ outer, ((ofDefaults defaults).pushAll outer).Innermost rule.fields o ∧
      ((ofDefaults defaults).pushAll outer).overlays.find?
        (fun o => rule.fields.any fun f => (o.get? f).isSome) = some o := by
  obtain ⟨o, hfind, hinnermost⟩ := exists_innermost rule.top_mem_fields breaks.top
  obtain ⟨setter, hsetter, hset⟩ := exists_mem_of_top breaks.top
  have hbefore : (outer.reverse.find? fun o =>
      rule.fields.any fun f => (o.get? f).isSome).isSome = true := by
    rw [List.find?_isSome]
    exact ⟨setter, List.mem_reverse.mpr hsetter,
      List.any_eq_true.mpr ⟨.top, rule.top_mem_fields, hset⟩⟩
  have hfound := hfind
  rw [overlays_pushAll, List.find?_append, Option.or_of_isSome hbefore] at hfound
  exact ⟨o, List.mem_reverse.mp (List.mem_of_find?_eq_some hfound), hinnermost, hfind⟩

variable (located : ∀ o ∈ outer, o.context.isEmpty = false)

include located

private theorem exists_blamed_of_mem_problems {d : Diagnostic α}
    (h : d ∈ ((ofDefaults defaults).pushAll outer).problems) :
    ∃ rule message parameters, ∃ o ∈ outer,
      ((ofDefaults defaults).pushAll outer).Breaks rule message parameters ∧
      ((ofDefaults defaults).pushAll outer).Innermost rule.fields o ∧
      d = .error o.context message parameters := by
  obtain ⟨rule, message, parameters, hbreaks, rfl⟩ := mem_problems_iff.mp h
  obtain ⟨o, ho, hinnermost, hfind⟩ := exists_blamed hbreaks
  refine ⟨rule, message, parameters, o, ho, hbreaks, hinnermost, ?_⟩
  rw [blame_of_find? hfind (located o ho)]

private theorem problems_pushAll_subset
    (unset : ∀ o ∈ inner, ∀ f ∈ Rule.allFields, o.get? f = none) :
    (((ofDefaults defaults).pushAll outer).pushAll inner).problems ⊆
      ((ofDefaults defaults).pushAll outer).problems := by
  intro d hd
  obtain ⟨rule, message, parameters, hbreaks, rfl⟩ := mem_problems_iff.mp hd
  have houter := hbreaks.congr fun f hf => get?_pushAll unset hf
  obtain ⟨o, ho, -, hfind⟩ := exists_blamed houter
  have hpushed := find?_pushAll (s := (ofDefaults defaults).pushAll outer)
    fun o ho f hf => unset o ho f (rule.fields_subset hf)
  refine mem_problems_iff.mpr ⟨rule, message, parameters, houter, ?_⟩
  rw [blame_of_find? hfind (located o ho), blame_of_find? (hpushed.trans hfind) (located o ho)]

private theorem foldl_addAll_pushAll {chains : List (List (Overlay α))}
    (unset : ∀ inner ∈ chains, ∀ o ∈ inner, ∀ f ∈ Rule.allFields, o.get? f = none) (r : Report α) :
    let s := (ofDefaults defaults).pushAll outer
    chains.foldl (fun r inner => r.addAll (s.pushAll inner).problems) (r.addAll s.problems) =
      r.addAll s.problems := by
  intro s
  have hall : chains.foldl (fun r inner => r.addAll (s.pushAll inner).problems)
      (r.addAll s.problems) =
        (r.addAll s.problems).addAll (chains.flatMap fun inner => (s.pushAll inner).problems) :=
    List.foldl_flatMap.symm
  rw [hall]
  apply Report.addAll_of_known
  intro d hd
  obtain ⟨inner, hinner, hd⟩ := List.mem_flatMap.mp hd
  exact Report.mem_texts_addAll r (problems_pushAll_subset located (unset inner hinner) hd)

end Located

/-- A rule that is broken further out is reported once. Take settings of which all overlays but the
defaults of the job have a place, and any settings with further overlays on top of these that set
none of the parameters of a rule. What is wrong with them adds nothing to a report that has what is
wrong with the first. A problem that the report gained is about a broken rule, and it names the
place of the innermost overlay that sets a parameter of the rule; and every broken rule is reported
with that place. -/
theorem broken_rules_reported_once (defaults : Defaults α) (outer : List (Overlay α))
    (located : ∀ o ∈ outer, o.context.isEmpty = false) (chains : List (List (Overlay α)))
    (unset : ∀ inner ∈ chains, ∀ o ∈ inner, ∀ f ∈ Rule.allFields, o.get? f = none)
    (r : Report α) :
    let s := (ofDefaults defaults).pushAll outer
    let first := r.addAll s.problems
    let last := chains.foldl (fun r inner => r.addAll (s.pushAll inner).problems) first
    last = first ∧
      (∀ d ∈ last.reported, d ∉ r.reported → ∃ rule message parameters o,
        s.Breaks rule message parameters ∧ s.Innermost rule.fields o ∧
          d = .error o.context message parameters ∧
          ∃ rest, d.text = o.context.text ++ ": " ++ rest) ∧
      ∀ rule message parameters, s.Breaks rule message parameters →
        ∃ o, s.Innermost rule.fields o ∧
          (Diagnostic.error o.context message parameters).text ∈ last.texts := by
  intro s first last
  have hlast : last = first := foldl_addAll_pushAll located unset r
  rw [hlast]
  refine ⟨rfl, fun d hd hnew => ?_, fun rule message parameters hbreaks => ?_⟩
  · have hproblem : d ∈ s.problems :=
      (List.mem_append.mp (Report.reported_addAll_subset r s.problems hd)).resolve_left hnew
    obtain ⟨rule, message, parameters, o, ho, hbreaks, hinnermost, rfl⟩ :=
      exists_blamed_of_mem_problems located hproblem
    have htext : (Diagnostic.error o.context message parameters).text =
        o.context.text ++ ": " ++ String.ofList (Diagnostic.fill message.toList parameters) :=
      if_neg (by simp [Diagnostic.error, located o ho])
    exact ⟨rule, message, parameters, o, hbreaks, hinnermost, rfl, _, htext⟩
  · obtain ⟨o, ho, hinnermost, hfind⟩ := exists_blamed hbreaks
    refine ⟨o, hinnermost, Report.mem_texts_addAll r (mem_problems_iff.mpr ?_)⟩
    refine ⟨rule, message, parameters, hbreaks, ?_⟩
    rw [blame_of_find? hfind (located o ho)]

section Sheet

open Binary64

def thinSheet : List (Overlay Float) :=
  let path := Overlay.empty .path (.ofPath (.ofText "Lid"))
  [((path.set .top 0).set .bottom (-3)).set .sweepHeight (-1),
    (Overlay.empty .chain (.ofElement (.ofText "Lid") "Line" ⟨1, 1⟩)).set .barHeight 4]

def sheetCuts : List (List (Overlay Float)) :=
  let cut (x : Float) := Overlay.empty .mill (.ofElement (.ofText "Lid") "Line" ⟨x, 1⟩)
  [[cut 2], [cut 5, (cut 5).set .feedRate 300]]

/-- The bars are reported at the line and the travels at the path, each once. -/
theorem broken_rules_reported_once_sheet :
    (∀ o ∈ thinSheet, o.context.isEmpty = false) ∧
    (∀ inner ∈ sheetCuts, ∀ o ∈ inner, ∀ f ∈ Rule.allFields, o.get? f = none) ∧
    let s := (ofDefaults .standard).pushAll thinSheet
    let last := sheetCuts.foldl (fun r inner => r.addAll (s.pushAll inner).problems)
      (Report.empty.addAll s.problems)
    last.texts = ["path Lid, Line at (1.000, 1.000): BarHeight 4 exceeds material thickness 3",
        "path Lid: SweepHeight -1 is below Top 0"] ∧
      ∀ d ∈ last.reported, ∃ rule message parameters o,
        s.Breaks rule message parameters ∧ s.Innermost rule.fields o ∧
          d = .error o.context message parameters := by
  have located : ∀ o ∈ thinSheet, o.context.isEmpty = false := by decide +kernel
  have unset : ∀ inner ∈ sheetCuts, ∀ o ∈ inner, ∀ f ∈ Rule.allFields, o.get? f = none := by
    decide +kernel
  obtain ⟨hlast, hblamed, -⟩ :=
    broken_rules_reported_once .standard thinSheet located sheetCuts unset .empty
  refine ⟨located, unset, ?_, fun d hd => ?_⟩
  · rw [hlast]
    decide +kernel
  · obtain ⟨rule, message, parameters, o, hbreaks, hinnermost, hd, -⟩ :=
      hblamed d hd List.not_mem_nil
    exact ⟨rule, message, parameters, o, hbreaks, hinnermost, hd⟩

end Sheet

end Settings

end Toolpath
