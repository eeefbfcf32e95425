import Toolpath.Proofs.Program.Rapids
import Toolpath.Proofs.Model.Issued
import Toolpath.Proofs.Model.Sources

/-!
Rapids do not go down into stock that is not cut. In a run without errors the settings of all models
are sound, so no sweep height is below the surface; then every rapid down that is written for an
element ends at the surface of that element or above, or goes back into a hole that was pecked.
-/

set_option autoImplicit false

namespace Toolpath

open Writer (Adds AddsSafe)

private theorem Model.Task.From.owned {α : Type} [Scalar α] {m : Model α} {t : Model.Task α}
    {S : Settings α → Prop} (h : t.From m) (own : ∀ p, m.HasElement p → S p.settings) :
    t.Owned S := by
  cases t with
  | comment settings text =>
    obtain ⟨p, _, _, hp, rfl, -⟩ := h
    exact own p hp
  | single setup element settings =>
    obtain ⟨p, hp, rfl, -⟩ := h
    exact own p hp
  | chain setup cuts =>
    intro cut hcut
    obtain ⟨p, hp, hsame⟩ := h cut hcut
    exact hsame ▸ own p hp

namespace Issued

/-- Only rapids were written since a peck for the same element, and the line ends over it, by the
clearance. -/
def Reenters (front : List (Issued ℝ)) (i : Issued ℝ) : Prop :=
  ∃ earlier peck out, front = earlier ++ peck :: out ∧ peck.settings = i.settings ∧
    peck.line.record.kind = .drill ∧ (∀ o ∈ out, o.line.record.kind = .lift) ∧
    i.line.after.xy = peck.line.after.xy ∧ i.line.after.z = peck.line.after.z + 0.5

/-- A line that may be written after those before it. -/
def Permitted (front : List (Issued ℝ)) (i : Issued ℝ) : Prop :=
  i.line.Lowers →
    (∀ top, i.settings.get? .top = some top → top ≤ i.line.after.z) ∨ i.Reenters front

private theorem Reenters.append {front : List (Issued ℝ)} {i : Issued ℝ} (h : Reenters front i)
    (lines : List (Issued ℝ)) : Reenters (lines ++ front) i := by
  obtain ⟨earlier, peck, out, rfl, hpeck⟩ := h
  exact ⟨lines ++ earlier, peck, out, (List.append_assoc _ _ _).symm, hpeck⟩

end Issued

private theorem Stretch.safe {settings : Settings ℝ} {w w' : Writer ℝ} (h : Stretch settings w w')
    (sound : settings.Sound) {top : ℝ} (htop : settings.get? .top = some top) :
    AddsSafe top w w' := by
  have hsweep {sweep : ℝ} (hset : settings.get? .sweepHeight = some sweep) : top ≤ sweep :=
    not_lt.mp (sound.sweep top sweep htop hset)
  have hhole {p : HoleParams ℝ} (hp : HoleParams.ofSettings settings = .ok p) :
      p.top = top ∧ p.top ≤ p.safe := by
    obtain ⟨hsurface, hsafe⟩ := Model.get?_of_ofSettings hp
    obtain rfl := Option.some.inj (htop.symm.trans hsurface)
    exact ⟨rfl, hsweep hsafe⟩
  cases h with
  | comment => exact (Writer.above_comment _).safe
  | single emits =>
    rcases Model.emitSingle_cases emits with ⟨p, center, hp, rfl⟩ |
      ⟨p, center, radius, bit, hp, rfl⟩ | ⟨sweep, dest, rate, hset, rfl⟩ | rfl
    · obtain ⟨rfl, hsafe⟩ := hhole hp
      exact p.safe_drill hsafe center
    · obtain ⟨rfl, hsafe⟩ := hhole hp
      exact p.safe_bore hsafe center radius bit
    · exact ((Writer.above_lift _ (Or.inr (hsweep hset))).trans
        (Writer.above_travelTo dest rate)).safe
    · exact (Adds.refl (Above top) _).safe
  | pass w setup hpass =>
    obtain rfl := Option.some.inj (htop.symm.trans hpass)
    exact (MillChain.adds_cutPass _ (Writer.above_moves setup _ _) w).safe
  | finish ends finishes =>
    rcases MillChain.finish_cases ends finishes with rfl | ⟨sweep, dest, -, rfl⟩
    · exact (Adds.refl (Above top) _).safe
    · exact ((Writer.above_lifted sweep).trans (Writer.above_travelTo dest none)).safe
  | header m =>
    obtain ⟨w, hheader, hnotes⟩ := m.exists_notes_header _
    rw [hheader]
    exact (hnotes.above.trans (Writer.above_travelTo m.start none)).safe
  | footer _ w sweep =>
    exact ((Writer.above_lifted sweep).trans (Writer.above_other "M30")).safe

private theorem Stretch.permitted {settings : Settings ℝ} {w w' : Writer ℝ}
    (h : Stretch settings w w')
    (sound : settings.Sound) : Justified Issued.Permitted (issuedFor settings (w.since w')) := by
  intro front i back hsplit hlowers
  obtain ⟨before, rest, hlines, rfl, hrest⟩ := List.map_eq_append_iff.mp hsplit
  obtain ⟨line, after, rfl, rfl, -⟩ := List.map_eq_cons_iff.mp hrest
  cases htop : settings.get? .top with
  | none => exact Or.inl fun top hset => by cases hset
  | some top =>
    rcases (h.safe sound htop).safe_since before line after hlines with habove | hback
    · exact Or.inl fun other hset => Option.some.inj hset ▸ habove hlowers
    · obtain ⟨earlier, peck, out, rfl, hkind, hout, hover⟩ := hback
      refine Or.inr ⟨issuedFor settings earlier, ⟨settings, peck⟩, issuedFor settings out, ?_, rfl,
        hkind, ?_, hover⟩
      · simp [issuedFor]
      · simpa [issuedFor] using hout

private theorem Issues.permitted {w w' : Writer ℝ} {lines : List (Issued ℝ)}
    (h : Issues Settings.Sound w lines w') : Justified Issued.Permitted lines := by
  induction h with
  | nil =>
    intro front i back hsplit
    simp at hsplit
  | cons stretch own _ ih =>
    refine (stretch.permitted own).append fun front i back hsplit hlowers => ?_
    exact (ih front i back hsplit hlowers).imp_right fun hback => hback.append _

namespace Build

/-- Rapids never go down into stock that is not cut. If no error was reported for the library of
some layers and for some calls of a builder, and a model that the calls found, or one placed in it,
gives a program, then all lines written for it are those of its header, its elements and its end,
and every rapid among them that takes the head down ends at the surface of its element or above, or
half a millimetre above the depth of the peck just before it. -/
theorem rapids_stay_above (defaults : Defaults ℝ) (layers : List (Layer ℝ))
    (calls : List (PathName × Bindings))
    (clean : ((Report.empty.addAll (Library.ofLayers defaults layers).2).addAll
      ((builds (Library.ofLayers defaults layers).1 calls).run initial).2.problems).hasErrors
        = false)
    (m : Model ℝ)
    (found : some m ∈ ((builds (Library.ofLayers defaults layers).1 calls).run initial).1)
    (inner : Model ℝ) (within : inner.Within m) {program : Program ℝ}
    (generated : inner.generate = .ok program) :
    ∃ lines : List (Issued ℝ), inner.issued = .ok lines ∧
      inner.rawRecords = .ok (lines.map fun i => i.line.record) ∧
      ∀ front i back, lines = front ++ i :: back →
        i.line.record.kind = .lift → i.line.after.z < i.line.before.z →
          (∀ top, i.settings.get? .top = some top → top ≤ i.line.after.z) ∨ i.Reenters front := by
  have hlibrary := Library.problems_eq_nil (Report.hasErrors_eq_false_of_addAll clean)
  have hrange : (Library.ofLayers defaults layers).1.defaults.overlay.InRange := by
    have hdefaults : (Library.ofLayers defaults layers).1.defaults = defaults :=
      Library.defaults_addAll ⟨[], defaults⟩ layers
    rw [hdefaults]
    exact Defaults.inRange_overlay (List.append_eq_nil_iff.mp hlibrary).1 fun _ value _ =>
      le_refl value
  obtain ⟨-, hanswers⟩ := ((answering_sound hrange).builds calls).resolve_left
    (not_broken_of_hasErrors hlibrary clean)
  obtain ⟨call, -, hsound⟩ := hanswers.exists_of_mem_right found
  have helements : ∀ p, inner.HasElement p → p.settings.Sound := by
    rintro p ⟨outer, houter, hp⟩
    exact (hsound m rfl outer (houter.trans within)).elements p hp
  have hpath : inner.settings.Sound := (hsound m rfl inner within).path
  obtain ⟨records, hrecords, -⟩ := Model.bind_eq_ok.mp generated
  obtain ⟨lines, sweep, done, hlines, rfl, hissues⟩ := Model.issues_issued hrecords hpath
    fun ts hts t ht => (Model.from_of_mem_tasks inner hts t ht).owned helements
  exact ⟨lines, hlines, hrecords, fun front i back hsplit hkind hdown =>
    hissues.permitted front i back hsplit ⟨hkind, hdown⟩⟩

/-- A path with a hole through a plate of two millimetres, drilled in pecks. -/
noncomputable def pointHole : Layer ℝ where
  name := .ofText "Hole"
  params := .ofList [('B', "-2"), ('I', "0.5"), ('T', "0")]
  levelParams := fun _ => none
  anchors := [⟨.start, .origin⟩, ⟨.stop, .origin⟩]
  elements := [⟨.drill .origin false, none, ∅⟩]

noncomputable def pointSettings : Settings ℝ :=
  (Settings.ofDefaults .standard).push
    ((((Overlay.empty .path (.ofPath (.ofText "Hole"))).set .bottom (-((2 : ℕ) : ℝ))).set
      .step 0.5).set .top 0)

noncomputable def drillSettings : Settings ℝ :=
  pointSettings.push (.empty .drill (.ofElement (.ofText "Hole") "Drill" .origin))

noncomputable def pointModel : Model ℝ where
  name := .ofText "Hole"
  settings := pointSettings
  start := .origin
  stop := .origin
  elements := [⟨⟨.drill .origin false, none, ∅⟩, drillSettings, none⟩]
  probes := []

theorem problems_pointSettings : pointSettings.problems = [] := by
  have htop : pointSettings.get? .top = some 0 := rfl
  have hbottom : pointSettings.get? .bottom = some (-2) := rfl
  have hheight : pointSettings.get? .barHeight = none := rfl
  have hsweep : pointSettings.get? .sweepHeight = some 10.0 := rfl
  refine Settings.problems_eq_nil_iff.mpr ⟨?_, ?_, ?_⟩
  · simp [Settings.bottomProblem, htop, hbottom]
  · simp [Settings.barProblem, htop, hbottom, hheight]
  · norm_num [Settings.sweepProblem, htop, hsweep]

theorem scopeOf_pointHole :
    scopeOf .standard pointHole ∅ = (⟨.ofText "Hole", ∅, pointSettings, []⟩, []) := by
  have hfinite (x : ℝ) : Scalar.isFinite x = true := by simp [Scalar.isFinite]
  have hentries : pointHole.params.entries = [('B', "-2"), ('I', "0.5"), ('T', "0")] := by
    decide +kernel
  have hbottom : (Scalar.ofDecimal ⟨true, 2, 0⟩ : ℝ) = -2 := by simp [Scalar.ofDecimal]
  have hstep : (Scalar.ofDecimal ⟨false, 5, -1⟩ : ℝ) = 0.5 := by norm_num [Scalar.ofDecimal]
  have htop : (Scalar.ofDecimal ⟨false, 0, 0⟩ : ℝ) = 0 := by simp [Scalar.ofDecimal]
  have hpositive : Field.rangeProblem .step (0.5 : ℝ) = none := if_neg (by norm_num)
  have hread : Overlay.read .path (.ofPath pointHole.name) pointHole.params ∅ =
      ((((Overlay.empty .path (.ofPath (.ofText "Hole"))).set .bottom (-2)).set .step 0.5).set
        .top (0 : ℝ), []) := by
    rw [Overlay.read, hentries,
      Overlay.addEntries_number .bottom (-2) (by decide) (by decide) (by decide +kernel) hbottom
        (hfinite _) rfl,
      Overlay.addEntries_number .step 0.5 (by decide) (by decide) (by decide +kernel) hstep
        (hfinite _) hpositive,
      Overlay.addEntries_number .top 0 (by decide) (by decide) (by decide +kernel) htop
        (hfinite _) rfl]
    rfl
  have hlevels : levelOverlays pointHole ∅ = ([], []) := rfl
  simp only [scopeOf, hread, hlevels]
  change (_, [] ++ pointSettings.problems ++ []) = _
  rw [problems_pointSettings]
  rfl

private theorem assemble_pointHole :
    Route.assemble pointHole.name pointHole.elements .origin .origin =
      (⟨pointHole.elements, [], true⟩, []) := by
  have hhere : (Point.origin : Point ℝ).coincides .origin = true := by
    norm_num [Point.coincides, Point.distance, Scalar.hypot, positionTolerance]
  have hdrawn : pointHole.elements.partition Element.isProbe = ([], pointHole.elements) := rfl
  have hwalk : Route.walk pointHole.elements.length .origin pointHole.elements =
      (pointHole.elements, []) := by
    simp [Route.walk, Route.pick, pointHole, Route.touches, Element.start, Element.stop, hhere,
      Route.better, Route.orient]
  have hcursor : Route.cursor .origin pointHole.elements = (.origin : Point ℝ) := rfl
  simp only [Route.assemble, hdrawn, hwalk, Route.problems, hcursor, hhere]
  rfl

private theorem construct_pointHole (place : ModelKey → Build ℝ (Option (Model ℝ)))
    (s : BuildState ℝ) :
    (construct place .standard pointHole ∅).run s = (some pointModel, s) := by
  have hreport (s : BuildState ℝ) : s.report [] = s := by simp [BuildState.report]
  have hproblems : drillSettings.problems = [] := problems_pointSettings
  have hstart : anchor pointHole .start = (some .origin, []) := rfl
  have hstop : anchor pointHole .stop = (some .origin, []) := rfl
  have helements : pointHole.elements = [⟨.drill .origin false, none, ∅⟩] := rfl
  have hsettings : settingsOf ⟨.ofText "Hole", ∅, pointSettings, []⟩
      ⟨.drill .origin false, none, ∅⟩ = (drillSettings, []) := rfl
  have hresolve : (resolve place ⟨.ofText "Hole", ∅, pointSettings, []⟩
      ⟨.drill .origin false, none, ∅⟩).run s =
        (some ⟨⟨.drill .origin false, none, ∅⟩, drillSettings, none⟩, s) := by
    simp only [resolve, hsettings, take, report]
    simp [hreport, hproblems]
    rfl
  simp only [construct, hstart, hstop, scopeOf_pointHole, take, report]
  simp [hreport, assemble_pointHole]
  simp only [helements, List.mapM_cons, List.mapM_nil]
  simp [hresolve]
  rfl

private theorem problems_standard : (Defaults.standard : Defaults ℝ).problems = [] := by
  have hpositive {f : Field} {x : ℝ} (hconstraint : f.constraint = .positive) (h : 0.0 < x) :
      f.rangeProblem x = none := by
    simp [Field.rangeProblem, hconstraint, h]
  have hfields : (Defaults.standard : Defaults ℝ).overlay.fields =
      [(.feedRate, 600.0), (.sweepRate, 3000.0), (.sweepHeight, 10.0), (.bitDiameter, 3.0)] := rfl
  refine List.filterMap_eq_nil_iff.mpr fun entry hentry => Option.map_eq_none_iff.mpr ?_
  rw [hfields] at hentry
  simp only [List.mem_cons, List.not_mem_nil, or_false] at hentry
  rcases hentry with rfl | rfl | rfl | rfl
  · exact hpositive rfl (by norm_num)
  · exact hpositive rfl (by norm_num)
  · rfl
  · exact hpositive rfl (by norm_num)

private theorem ofLayers_pointHole :
    Library.ofLayers .standard [pointHole] = (⟨[pointHole], .standard⟩, []) := by
  simp only [Library.ofLayers, problems_standard]
  rfl

private theorem run_pointHole :
    (builds ⟨[pointHole], .standard⟩ [(.ofText "Hole", ∅)]).run initial =
      ([some pointModel], initial.keep ⟨.ofText "Hole", ∅⟩ (some pointModel)) := by
  have hget : (⟨[pointHole], .standard⟩ : Library ℝ).get? (.ofText "Hole") = some pointHole := rfl
  have hfind : (initial : BuildState ℝ).find? ⟨.ofText "Hole", ∅⟩ = none := rfl
  have hstack : (initial : BuildState ℝ).stack = [] := rfl
  have hwithin : (buildWithin ⟨[pointHole], .standard⟩ 32 ⟨.ofText "Hole", ∅⟩).run initial =
      (some pointModel, initial.keep ⟨.ofText "Hole", ∅⟩ (some pointModel)) := by
    unfold buildWithin
    simp only [run_bind, run_lookup, hfind, run_inProgress, hstack, List.dropWhile_nil, hget,
      run_during, construct_pointHole]
    rfl
  have hcall : (build ⟨[pointHole], .standard⟩ (.ofText "Hole") ∅).run initial =
      (some pointModel, initial.keep ⟨.ofText "Hole", ∅⟩ (some pointModel)) := by
    rw [build, run_bind, run_inProgress]
    exact hwithin
  simp only [run_builds_cons, hcall]
  rfl

private theorem exists_lowering_drill (p : HoleParams ℝ) {w : Writer ℝ} {setup : Setup ℝ}
    {center : Point ℝ} (hover : w.head.xy.coincides center = true)
    (hhigh : p.top + 1e-6 < w.head.z) :
    ∃ line ∈ w.since (p.drill w setup center), line.Lowers := by
  have hdown : p.top < w.head.z := by linarith
  have hfar : ¬ Scalar.abs (w.head.z - p.top) ≤ Writer.moveTolerance := by
    have htolerance : (Writer.moveTolerance : ℝ) = 1e-6 := rfl
    rw [RealScalar.abs_eq, abs_of_pos (sub_pos.mpr hdown), htolerance]
    linarith
  let r : Record ℝ := ⟨.lift, commandText "G00" [('Z', setup.heightText w.head.xy p.top)],
    Scalar.abs (w.head.z - p.top), none⟩
  have happroach : p.approach w setup center = w.push r { w.head with z := p.top } := by
    simp only [HoleParams.approach, hover, if_true, if_pos hdown, Writer.rapidToCorrected,
      Writer.lift, if_neg hfar]
    rfl
  have hcycle := p.still_cycle w setup center
  rw [happroach] at hcycle
  exact ⟨⟨r, w.head, { w.head with z := p.top }⟩, hcycle.mem_since_of_push, rfl, hdown⟩

private theorem exists_lowering_pointModel {lines : List (Issued ℝ)}
    (h : pointModel.issued = .ok lines) :
    ∃ i ∈ lines, i.line.Lowers := by
  let head := pointModel.header 10.0
  let setup : Setup ℝ := ⟨.identity, []⟩
  let p : HoleParams ℝ := ⟨0, -2, 0.5, 600.0, 600.0, 10.0⟩
  have hhead : head.head = Model.startHead 10.0 := by
    obtain ⟨w, hw, hnotes⟩ := pointModel.exists_notes_header 10.0
    have hdistance : w.head.xy.distance pointModel.start ≤ Writer.moveTolerance := by
      rw [hnotes.head]
      norm_num [Model.startHead, pointModel, Point.origin, Point.distance, Scalar.hypot, Head.xy,
        Writer.moveTolerance]
    change (pointModel.header 10.0).head = _
    rw [hw, Writer.travelTo]
    simp only [if_pos hdistance]
    exact hnotes.head
  have hover : head.head.xy.coincides (setup.apply .origin) = true := by
    rw [hhead]
    norm_num [Point.coincides, Model.startHead, setup, Setup.apply, Placement.apply,
      Placement.identity, Point.origin, Point.distance, Scalar.hypot, Head.xy, positionTolerance]
  have hhigh : p.top + 1e-6 < head.head.z := by
    rw [hhead]
    norm_num [Model.startHead, p]
  have hdrill : ∃ line ∈ head.since (p.drill head setup (setup.apply .origin)), line.Lowers :=
    exists_lowering_drill p hover hhigh
  obtain ⟨line, hline, hlowers⟩ := hdrill
  have hissued : ∃ front back, pointModel.issued = .ok (front ++
      ((issuedFor drillSettings (head.since (p.drill head setup (setup.apply .origin))) ++ []) ++
        back)) := ⟨_, _, rfl⟩
  obtain ⟨front, back, hissued⟩ := hissued
  obtain rfl := Except.ok.inj (h.symm.trans hissued)
  refine ⟨⟨drillSettings, line⟩, ?_, hlowers⟩
  simp [issuedFor, hline]

theorem rapids_stay_above_hole :
    ((Report.empty.addAll (Library.ofLayers .standard [pointHole]).2).addAll
      ((builds (Library.ofLayers .standard [pointHole]).1 [(.ofText "Hole", ∅)]).run
        initial).2.problems).hasErrors = false ∧
    some pointModel ∈ ((builds (Library.ofLayers .standard [pointHole]).1
      [(.ofText "Hole", ∅)]).run initial).1 ∧
    ∃ (program : Program ℝ) (lines : List (Issued ℝ)), pointModel.generate = .ok program ∧
      pointModel.issued = .ok lines ∧ (∃ i ∈ lines, i.line.Lowers) ∧
      ∀ front i back, lines = front ++ i :: back →
        i.line.record.kind = .lift → i.line.after.z < i.line.before.z →
          (∀ top, i.settings.get? .top = some top → top ≤ i.line.after.z) ∨ i.Reenters front := by
  have hclean : ((Report.empty.addAll (Library.ofLayers .standard [pointHole]).2).addAll
      ((builds (Library.ofLayers .standard [pointHole]).1 [(.ofText "Hole", ∅)]).run
        initial).2.problems).hasErrors = false := by
    simp only [ofLayers_pointHole, run_pointHole]
    rfl
  have hfound : some pointModel ∈ ((builds (Library.ofLayers .standard [pointHole]).1
      [(.ofText "Hole", ∅)]).run initial).1 := by
    simp [ofLayers_pointHole, run_pointHole]
  have hgenerate : ∃ program, pointModel.generate = .ok program :=
    ⟨_, Model.bind_eq_ok.mpr ⟨_, Model.bind_eq_ok.mpr ⟨10.0, rfl, Model.bind_eq_ok.mpr
      ⟨_, rfl, rfl⟩⟩, rfl⟩⟩
  obtain ⟨program, hprogram⟩ := hgenerate
  obtain ⟨lines, hlines, -, hrapids⟩ := rapids_stay_above .standard [pointHole]
    [(.ofText "Hole", ∅)] hclean pointModel hfound pointModel (.self _) hprogram
  exact ⟨hclean, hfound, program, lines, hprogram, hlines, exists_lowering_pointModel hlines,
    hrapids⟩

end Build

end Toolpath
