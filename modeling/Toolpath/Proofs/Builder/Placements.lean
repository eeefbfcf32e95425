import Mathlib
import Toolpath.Proofs.Builder.Levels
import Toolpath.Proofs.Builder.Names
import Toolpath.Proofs.Geometry.Motions
import Toolpath.Proofs.Model.Descents
import Toolpath.Proofs.Model.Visits

/-!
Where the probes of a model lie. While models are built, the probes of a placed path are carried
into the path around it, level by level; while a program is written, the elements of a placed path
are carried by one composed setup. In exact arithmetic both come to the same: each visit of a path
has every probe of its layer once, where the setup of the visit carries it.
-/

set_option autoImplicit false

namespace Toolpath

def Setup.carry {α : Type} [Scalar α] (s : Setup α) (probe : BedProbe α) : BedProbe α :=
  ⟨s.apply probe.position, probe.target⟩

private theorem Setup.carry_nested (s : Setup ℝ) (t : Placement ℝ) (probe : BedProbe ℝ) :
    (s.nested t).carry probe = s.carry ⟨t.apply probe.position, probe.target⟩ := by
  show (⟨(t.andThen s.placement).apply probe.position, probe.target⟩ : BedProbe ℝ) =
    ⟨s.placement.apply (t.apply probe.position), probe.target⟩
  rw [Placement.apply_andThen]

namespace Build

open Model (visits placedVisits Task Work visitWork tasks runAll)

/-- Some probes are those on the layer of a visited path, each once and in the order of the layer:
where the setup of the visit carries its place on the layer, with the height expected there. -/
def ProbesOfVisit (lib : Library ℝ) (visit : Setup ℝ × Model ℝ) (probes : List (BedProbe ℝ)) :
    Prop :=
  ∃ key layer, HasModel lib key visit.2 ∧ lib.get? key.name = some layer ∧
    List.Forall₂
      (fun e probe => ∃ position expected, e.kind = .probe position ∧
        (bedProbe (scopeOf lib.defaults layer key.bindings).1 e).1 = some expected ∧
        probe = ⟨visit.1.apply position, expected.target⟩)
      (layer.elements.filter Element.isProbe) probes

private theorem exists_position_of_isProbe {e : Element ℝ} (h : e.isProbe = true) :
    ∃ position, e.kind = .probe position := by
  unfold Element.isProbe at h
  split at h
  · next position hkind => exact ⟨position, hkind⟩
  · cases h

variable {lib : Library ℝ} {key : ModelKey} {m : Model ℝ} {n : Nat}

private theorem Expanded.probesOfVisit {layer : Layer ℝ} (h : Expanded lib n key m layer)
    (found : HasModel lib key m) (setup : Setup ℝ) :
    ∃ own, m.probes = m.elements.flatMap placedProbes ++ own ∧
      ProbesOfVisit lib (setup, m) (own.map setup.carry) := by
  obtain ⟨own, hown, hprobes⟩ := h.probes
  refine ⟨own, hprobes, key, layer, found, h.found, ?_⟩
  have hkinds : ∀ e ∈ layer.elements.filter Element.isProbe, e.isProbe = true :=
    fun e he => (List.mem_filter.mp he).2
  rw [List.forall₂_map_right_iff]
  refine ((List.forall₂_and_left _ _).mpr ⟨hkinds, hown⟩).imp fun e probe hprobe => ?_
  obtain ⟨position, hposition⟩ := exists_position_of_isProbe hprobe.1
  have hstart := (of_bedProbe hprobe.2).1
  rw [Element.start, hposition] at hstart
  refine ⟨position, probe, hposition, hprobe.2, ?_⟩
  show (⟨setup.apply probe.position, probe.target⟩ : BedProbe ℝ) = _
  rw [hstart]

private theorem exists_stretches_of_placed (setup : Setup ℝ) {scope : Scope ℝ}
    {es : List (Element ℝ)} {ps : List (Placed ℝ (Model ℝ))} {answer : Element ℝ → Option (Model ℝ)}
    (h : List.Forall₂ (fun e p => resolved scope e (answer e) = some p) es ps)
    (inner : ∀ e sub, answer e = some sub → ∀ setup : Setup ℝ, ∃ stretches,
      sub.probes.map setup.carry = stretches.flatten ∧
        List.Forall₂ (ProbesOfVisit lib) (sub.visits setup) stretches) :
    ∃ stretches, (ps.flatMap placedProbes).map setup.carry = stretches.flatten ∧
      List.Forall₂ (ProbesOfVisit lib) (placedVisits setup ps) stretches := by
  induction h with
  | nil =>
    rw [placedVisits]
    exact ⟨[], rfl, .nil⟩
  | @cons e p es ps hp _ ih =>
    obtain ⟨later, hlater, hvisits⟩ := ih
    have helement := (of_resolved hp).1
    rw [List.flatMap_cons, List.map_append]
    rcases resolved_cases hp with ⟨start, stop, target, sub, t, hkind, hsub, -, hplaces⟩ |
      ⟨hkind, hnone⟩
    · obtain ⟨first, hfirst, hfirstVisits⟩ := inner e sub hsub (setup.nested t)
      obtain ⟨element, settings, placed⟩ := p
      obtain rfl : element = e := helement
      obtain rfl : placed = some (sub, t) := hplaces
      have hcarried : (placedProbes ⟨element, settings, some (sub, t)⟩).map setup.carry =
          sub.probes.map (setup.nested t).carry := by
        simp only [placedProbes, List.map_map]
        exact List.map_congr_left fun probe _ => (Setup.carry_nested setup t probe).symm
      refine ⟨first ++ later, ?_, ?_⟩
      · rw [hcarried, hfirst, hlater, List.flatten_append]
      · rw [Model.placedVisits_placed setup hkind]
        exact List.rel_append hfirstVisits hvisits
    · refine ⟨later, ?_, ?_⟩
      · rw [placedProbes, hnone]
        exact hlater
      · rw [Model.placedVisits_of_not_placed setup (helement ▸ hkind)]
        exact hvisits

private theorem exists_stretches (h : expand lib n key = some m) (setup : Setup ℝ) :
    ∃ stretches, m.probes.map setup.carry = stretches.flatten ∧
      List.Forall₂ (ProbesOfVisit lib) (m.visits setup) stretches := by
  induction n generalizing key m setup with
  | zero => cases h
  | succ n ih =>
    obtain ⟨layer, hlevel⟩ := exists_expanded h
    obtain ⟨own, hprobes, hown⟩ := hlevel.probesOfVisit ⟨n + 1, h⟩ setup
    have hinner : ∀ e sub,
        (request? (scopeOf lib.defaults layer key.bindings).1 e).bind (expand lib n) = some sub →
        ∀ setup : Setup ℝ, ∃ stretches, sub.probes.map setup.carry = stretches.flatten ∧
          List.Forall₂ (ProbesOfVisit lib) (sub.visits setup) stretches := by
      intro e sub hsub setup
      obtain ⟨k, -, hk⟩ := Option.bind_eq_some_iff.mp hsub
      exact ih hk setup
    obtain ⟨stretches, hstretches, hvisits⟩ :=
      exists_stretches_of_placed setup hlevel.elements hinner
    refine ⟨stretches ++ [own.map setup.carry], ?_, ?_⟩
    · rw [hprobes, List.map_append, hstretches, List.flatten_append, List.flatten_singleton]
    · rw [Model.visits_eq]
      exact List.rel_append hvisits (.cons hown .nil)

/-- Probes lie where the elements of their path are emitted. For a model that a builder finds, take
the setup that its program is written under, and the visits of its paths under this setup: each
place of a path, at any depth, is one visit, with the composed setup. The probes of the model are,
one visit after the other, those of the layer of the visited path, each once, where the setup of the
visit carries it; every visit writes heights with the probes of the whole model; and the elements
that are emitted are those of the visits, each once and under the setup of its visit. -/
theorem probes_lie_where_emitted {lib : Library ℝ} {calls : List (PathName × Bindings)}
    {m : Model ℝ} (found : some m ∈ ((builds lib calls).run initial).1) :
    let root : Setup ℝ := ⟨.identity, m.probes⟩
    (∃ stretches, m.probes = stretches.flatten ∧
      List.Forall₂ (ProbesOfVisit lib) (m.visits root) stretches) ∧
    (∀ visit ∈ m.visits root, visit.1.probes = m.probes) ∧
    ∀ w w', m.emit root w = .ok w' → ∃ ts, tasks root m = .ok ts ∧ runAll ts w = .ok w' ∧
      (ts.flatMap Task.work).Perm ((m.visits root).flatMap visitWork) := by
  intro root
  obtain ⟨call, -, n, hn⟩ := exists_hasModel_of_mem_builds found
  have hcarry : root.carry = id := by
    funext probe
    show (⟨Placement.identity.apply probe.position, probe.target⟩ : BedProbe ℝ) = probe
    rw [Placement.apply_identity]
  refine ⟨?_, Model.probes_of_mem_visits m, fun w w' hemit => ?_⟩
  · obtain ⟨stretches, hprobes, hvisits⟩ := exists_stretches hn root
    rw [hcarry, List.map_id] at hprobes
    exact ⟨stretches, hprobes, hvisits⟩
  · obtain ⟨ts, hts, hrun⟩ := Model.emit_ok m hemit
    exact ⟨ts, hts, hrun, Model.work_tasks_perm m hts⟩

section Sheet

noncomputable def probedHole : Layer ℝ := pointHole.addElement ⟨.probe ⟨1, 2.0⟩, none, ∅⟩

noncomputable def sheet : Layer ℝ where
  name := .ofText "Sheet"
  params := ∅
  levelParams := fun _ => none
  anchors := [⟨.start, ⟨5.0, 0⟩⟩, ⟨.stop, ⟨5.0, 0⟩⟩]
  elements := [⟨.subPath ⟨5.0, 0⟩ ⟨5.0, 0⟩ (.ofText "Hole"), none, ∅⟩]

noncomputable def sheets : Library ℝ := ⟨[probedHole, sheet], .standard⟩

noncomputable def probedModel : Model ℝ := { pointModel with probes := [⟨⟨1, 2.0⟩, 0⟩] }

noncomputable def sheetSettings : Settings ℝ :=
  (Settings.ofDefaults .standard).push (.empty .path (.ofPath (.ofText "Sheet")))

noncomputable def sheetModel : Model ℝ where
  name := .ofText "Sheet"
  settings := sheetSettings
  start := ⟨5.0, 0⟩
  stop := ⟨5.0, 0⟩
  elements := [⟨⟨.subPath ⟨5.0, 0⟩ ⟨5.0, 0⟩ (.ofText "Hole"), none, ∅⟩,
    sheetSettings.push (.empty .subPath (.ofElement (.ofText "Sheet") "SubPath" ⟨5.0, 0⟩)),
    some (probedModel, ⟨1, 0, ⟨5.0, 0⟩⟩)⟩]
  probes := [⟨⟨6.0, 2.0⟩, 0⟩]

private theorem assemble_single {path : PathName} {elements : List (Element ℝ)} {e : Element ℝ}
    {p : Point ℝ}
    (hdrawn : elements.partition Element.isProbe = (elements.filter Element.isProbe, [e]))
    (hstart : e.start = p) (hstop : e.stop = p) :
    Route.assemble path elements p p = (⟨[e], elements.filter Element.isProbe, true⟩, []) := by
  have hhere : p.coincides p = true := Point.coincides_self p
  have hwalk : Route.walk [e].length p [e] = ([e], []) := by
    simp [Route.walk, Route.pick, Route.touches, hstart, hstop, hhere, Route.better, Route.orient]
  have hcursor : Route.cursor p [e] = p := hstop
  simp only [Route.assemble, hdrawn, hwalk, Route.problems, hcursor, hhere]
  rfl

private theorem construct_probedHole (place : ModelKey → Build ℝ (Option (Model ℝ)))
    (s : BuildState ℝ) :
    (construct place .standard probedHole ∅).run s = (some probedModel, s) := by
  have hreport (s : BuildState ℝ) : s.report [] = s := by simp [BuildState.report]
  have hproblems : drillSettings.problems = [] := problems_pointSettings
  have hstart : anchor probedHole .start = (some .origin, []) := rfl
  have hstop : anchor probedHole .stop = (some .origin, []) := rfl
  have hscope : scopeOf .standard probedHole ∅ =
      (⟨.ofText "Hole", ∅, pointSettings, []⟩, []) := scopeOf_pointHole
  have hassemble : Route.assemble probedHole.name probedHole.elements .origin .origin =
      (⟨[⟨.drill .origin false, none, ∅⟩], [⟨.probe ⟨1, 2.0⟩, none, ∅⟩], true⟩, []) :=
    assemble_single rfl rfl rfl
  have hsettings : settingsOf ⟨.ofText "Hole", ∅, pointSettings, []⟩
      ⟨.drill .origin false, none, ∅⟩ = (drillSettings, []) := rfl
  have hprobe : bedProbe ⟨.ofText "Hole", ∅, pointSettings, []⟩ ⟨.probe ⟨1, 2.0⟩, none, ∅⟩ =
      (some ⟨⟨1, 2.0⟩, 0⟩, []) := rfl
  have hresolve : (resolve place ⟨.ofText "Hole", ∅, pointSettings, []⟩
      ⟨.drill .origin false, none, ∅⟩).run s =
        (some ⟨⟨.drill .origin false, none, ∅⟩, drillSettings, none⟩, s) := by
    simp only [resolve, hsettings, take, report]
    simp [hreport, hproblems]
    rfl
  simp only [construct, hstart, hstop, hscope, take, report]
  simp [hreport, hassemble, hprobe]
  simp [hresolve, modelOf, hprobe]
  rfl

private theorem problems_sheetSettings : sheetSettings.problems = [] := by
  have htop : sheetSettings.get? .top = none := rfl
  have hbottom : sheetSettings.get? .bottom = none := rfl
  have hheight : sheetSettings.get? .barHeight = none := rfl
  have hsweep : sheetSettings.get? .sweepHeight = some 10.0 := rfl
  refine Settings.problems_eq_nil_iff.mpr ⟨?_, ?_, ?_⟩
  · simp [Settings.bottomProblem, htop]
  · simp [Settings.barProblem, htop]
  · simp [Settings.sweepProblem, htop]

private theorem fit_sheet : fit (.ofElement (.ofText "Sheet") "SubPath" ⟨5.0, 0⟩) (.ofText "Hole")
    ⟨5.0, 0⟩ ⟨5.0, 0⟩ probedModel = (some ⟨1, 0, ⟨5.0, 0⟩⟩, []) := by
  have hanchors : Placement.ofAnchors probedModel.start probedModel.stop ⟨5.0, 0⟩ ⟨5.0, 0⟩ =
      .ok ⟨1, 0, ⟨5.0, 0⟩⟩ := by
    have hlength (p : Point ℝ) : Scalar.hypot (p.vectorTo p).x (p.vectorTo p).y = 0 :=
      p.distance_self
    have hzero : (0.0 : ℝ) = 0 := by norm_num
    have hsame : ¬ (positionTolerance : ℝ) < Scalar.abs (0 - 0) := by
      rw [RealScalar.abs_eq, sub_zero, abs_zero]
      exact not_lt.mpr (le_of_lt positionTolerance_pos)
    have hcos : (Scalar.cos 0 : ℝ) = 1 := Real.cos_zero
    have hsin : (Scalar.sin 0 : ℝ) = 0 := Real.sin_zero
    show Placement.ofAnchors .origin .origin ⟨5.0, 0⟩ ⟨5.0, 0⟩ = _
    simp only [Placement.ofAnchors, hlength, if_neg hsame, if_pos (le_of_lt positionTolerance_pos),
      Point.origin, hzero, hcos, hsin]
    norm_num
  simp only [fit, hanchors]

private theorem construct_sheet {place : ModelKey → Build ℝ (Option (Model ℝ))}
    {s s' : BuildState ℝ} (h : (place ⟨.ofText "Hole", ∅⟩).run s = (some probedModel, s')) :
    (construct place .standard sheet ∅).run s = (some sheetModel, s') := by
  let scope : Scope ℝ := ⟨.ofText "Sheet", ∅, sheetSettings, []⟩
  let e : Element ℝ := ⟨.subPath ⟨5.0, 0⟩ ⟨5.0, 0⟩ (.ofText "Hole"), none, ∅⟩
  let settings : Settings ℝ :=
    sheetSettings.push (.empty .subPath (.ofElement (.ofText "Sheet") "SubPath" ⟨5.0, 0⟩))
  have hreport (s : BuildState ℝ) : s.report [] = s := by simp [BuildState.report]
  have hstart : anchor sheet .start = (some ⟨5.0, 0⟩, []) := rfl
  have hstop : anchor sheet .stop = (some ⟨5.0, 0⟩, []) := rfl
  have hscope : scopeOf .standard sheet ∅ = (scope, []) := by
    show (scope, [] ++ sheetSettings.problems ++ []) = (scope, [])
    rw [problems_sheetSettings]
    rfl
  have hassemble : Route.assemble sheet.name sheet.elements ⟨5.0, 0⟩ ⟨5.0, 0⟩ =
      (⟨[e], [], true⟩, []) :=
    assemble_single rfl rfl rfl
  have hsettings : settingsOf scope e = (settings, []) := rfl
  have hproblems : settings.problems = [] := problems_sheetSettings
  have hchild : childBindings scope.bindings e.params.entries ∅ = .ok ∅ := rfl
  have hcontext : e.context scope.path = .ofElement (.ofText "Sheet") "SubPath" ⟨5.0, 0⟩ := rfl
  have hresolve : (resolve place scope e).run s =
      (some ⟨e, settings, some (probedModel, ⟨1, 0, ⟨5.0, 0⟩⟩)⟩, s') := by
    simp only [resolve, hsettings, take, report]
    simp [hreport, hproblems]
    simp only [e, hchild, hcontext]
    rw [run_bind, h]
    simp [fit_sheet, hreport]
    rfl
  have hprobes : placedProbes ⟨e, settings, some (probedModel, ⟨1, 0, ⟨5.0, 0⟩⟩)⟩ =
      [⟨⟨6.0, 2.0⟩, 0⟩] := by
    norm_num [placedProbes, probedModel, Placement.apply]
  have hmodel : modelOf scope ⟨5.0, 0⟩ ⟨5.0, 0⟩ ⟨[e], [], true⟩
      [some ⟨e, settings, some (probedModel, ⟨1, 0, ⟨5.0, 0⟩⟩)⟩] = some sheetModel := by
    refine modelOf_eq_some_iff.mpr ⟨rfl, rfl, rfl, ?_⟩
    rw [sheetModel, ← hprobes]
    rfl
  simp only [construct, hstart, hstop, hscope, take, report]
  simp [hreport, hassemble]
  simp [hresolve]
  show (modelOf scope ⟨5.0, 0⟩ ⟨5.0, 0⟩ ⟨[e], [], true⟩ _, s') = _
  rw [hmodel]

theorem run_sheets :
    ((builds sheets [(.ofText "Sheet", ∅)]).run initial).1 = [some sheetModel] := by
  have hsheet : sheets.get? (.ofText "Sheet") = some sheet := rfl
  have hhole : sheets.get? (.ofText "Hole") = some probedHole := rfl
  have hplace (s : BuildState ℝ) (hfind : s.find? ⟨.ofText "Hole", ∅⟩ = none)
      (hstack : s.stack = [⟨.ofText "Sheet", ∅⟩]) :
      ∃ s', (buildWithin sheets 31 ⟨.ofText "Hole", ∅⟩).run s = (some probedModel, s') := by
    have hother : s.stack.dropWhile (fun k => !(k.name == PathName.ofText "Hole")) = [] := by
      rw [hstack]
      rfl
    unfold buildWithin
    simp only [run_bind, run_lookup, hfind, run_inProgress, hother, hhole, run_during]
    have hdefaults : sheets.defaults = .standard := rfl
    rw [hdefaults, construct_probedHole]
    exact ⟨_, rfl⟩
  obtain ⟨s', hs'⟩ := hplace (initial.enter ⟨.ofText "Sheet", ∅⟩) rfl rfl
  have hwithin : ((buildWithin sheets 32 ⟨.ofText "Sheet", ∅⟩).run initial).1 =
      some sheetModel := by
    have hfind : (initial : BuildState ℝ).find? ⟨.ofText "Sheet", ∅⟩ = none := rfl
    have hstack : (initial : BuildState ℝ).stack = [] := rfl
    have hdefaults : sheets.defaults = .standard := rfl
    unfold buildWithin
    simp only [run_bind, run_lookup, hfind, run_inProgress, hstack, List.dropWhile_nil, hsheet,
      run_during]
    rw [hdefaults, construct_sheet hs']
    rfl
  have hcall : ((build sheets (.ofText "Sheet") ∅).run initial).1 = some sheetModel := by
    rw [build, run_bind, run_inProgress]
    exact hwithin
  rw [run_builds_cons]
  show [((build sheets (.ofText "Sheet") ∅).run initial).1] = [some sheetModel]
  rw [hcall]

/-- The probe beside the hole lies beside it in the sheet too. -/
theorem probes_lie_where_emitted_sheet :
    some sheetModel ∈ ((builds sheets [(.ofText "Sheet", ∅)]).run initial).1 ∧
      sheetModel.probes = [⟨⟨6.0, 2.0⟩, 0⟩] ∧
      ∃ stretches, sheetModel.probes = stretches.flatten ∧ List.Forall₂ (ProbesOfVisit sheets)
        (sheetModel.visits ⟨.identity, sheetModel.probes⟩) stretches := by
  have hfound : some sheetModel ∈ ((builds sheets [(.ofText "Sheet", ∅)]).run initial).1 := by
    rw [run_sheets, List.mem_singleton]
  obtain ⟨hstretches, -, -⟩ := probes_lie_where_emitted hfound
  exact ⟨hfound, rfl, hstretches⟩

end Sheet

end Build

end Toolpath
