import Mathlib
import Toolpath.Proofs.Builder.Placements
import Toolpath.Proofs.Model.LastStep

/-!
The moves of a path end at its end. Every level of placed paths adds a slack of its own: the route
ends near the end of the path, the last element is left near its end, and a placed path is fitted
between the ends of its element only so far. In exact arithmetic these add up to four tolerances
for a level, and two for the last one.
-/

set_option autoImplicit false

namespace Toolpath.Build

open Model (LastStep)

variable {lib : Library ℝ} {key : ModelKey} {m : Model ℝ} {n : Nat}

noncomputable def slack (depth : Nat) : ℝ := (4 * depth + 2 : Nat) * positionTolerance

private theorem slack_eq (depth : Nat) :
    slack depth = (4 * depth + 2) * positionTolerance := by
  rw [slack]
  push_cast
  rfl

private theorem two_le_slack (depth : Nat) : 2 * positionTolerance ≤ slack depth := by
  have hnonneg : 0 ≤ (depth : ℝ) * positionTolerance :=
    mul_nonneg (Nat.cast_nonneg depth) (le_of_lt positionTolerance_pos)
  rw [slack_eq]
  linarith

private theorem slack_add_four_le {inner outer : Nat} (h : inner < outer) :
    slack inner + 4 * positionTolerance ≤ slack outer := by
  have hcast : ((inner : ℝ) + 1) * positionTolerance ≤ outer * positionTolerance := by
    apply mul_le_mul_of_nonneg_right _ (le_of_lt positionTolerance_pos)
    exact_mod_cast h
  rw [slack_eq, slack_eq]
  linarith

private theorem Expanded.distance_cursor_le {layer : Layer ℝ} (h : Expanded lib n key m layer)
    {setup : Setup ℝ} (rigid : setup.placement.Rigid) :
    (setup.apply (Route.cursor m.start (routeOf layer m.start m.stop).elements)).distance
      (setup.apply m.stop) ≤ positionTolerance := by
  have hends := Point.coincides_iff.mp (cursor_of_complete h.complete)
  show (setup.placement.apply _).distance (setup.placement.apply _) ≤ positionTolerance
  rwa [rigid.distance_apply]

private theorem distance_last_le {scope : Scope ℝ} {e : Element ℝ} {p : Placed ℝ (Model ℝ)}
    {setup : Setup ℝ} {w' : Writer ℝ} {outcome : Option (Model ℝ)} (depth : Nat)
    (resolves : resolved scope e outcome = some p) (notProbe : e.isProbe = false)
    (rigid : setup.placement.Rigid)
    (inner : ∀ sub t w, outcome = some sub → p.sub = some (sub, t) →
      (setup.nested t).placement.Rigid → sub.emit (setup.nested t) w = .ok w' →
        w'.head.xy.distance ((setup.nested t).apply sub.stop) + 4 * positionTolerance ≤ slack depth)
    (last : LastStep setup w' p) :
    w'.head.xy.distance (setup.apply e.stop) + positionTolerance ≤ slack depth := by
  have hslack := two_le_slack depth
  obtain rfl := (of_resolved resolves).1
  cases last with
  | @cut shape mark cuts w hkind hends hmills =>
    have hover : w'.head.xy.distance (setup.apply shape.stop) ≤ positionTolerance :=
      MillChain.over_mill hmills hends
    have hstop : p.element.stop = shape.stop := by rw [Element.stop, hkind]
    rw [hstop]
    linarith
  | single hcut hplaced hemits =>
    have hover : w'.head.xy.distance (setup.apply p.element.stop) ≤ positionTolerance :=
      Model.over_emitSingle hemits hcut hplaced notProbe
    linarith
  | @placed start stop target sub t w hkind hplaces hemits =>
    rcases resolved_cases resolves with ⟨start', stop', target', sub', t', hkind', hsub, hanchors,
      hplaces'⟩ | ⟨hnot, -⟩
    · obtain ⟨rfl, rfl⟩ : sub' = sub ∧ t' = t :=
        Prod.mk.inj (Option.some.inj (hplaces'.symm.trans hplaces))
      obtain ⟨hrigid, -, -⟩ := Placement.ofAnchors_spec hanchors
      have hinner := inner sub' t' w hsub hplaces (hrigid.andThen rigid) hemits
      have hnested : (setup.nested t').apply sub'.stop = setup.apply (t'.apply sub'.stop) :=
        Placement.apply_andThen t' setup.placement sub'.stop
      have hend : (setup.apply (t'.apply sub'.stop)).distance (setup.apply stop') ≤
          3 * positionTolerance := by
        show (setup.placement.apply _).distance (setup.placement.apply _) ≤ _
        rw [rigid.distance_apply]
        exact Placement.ofAnchors_end hanchors
      have hstop : p.element.stop = stop' := by rw [Element.stop, hkind']
      have htriangle := Point.distance_triangle w'.head.xy (setup.apply (t'.apply sub'.stop))
        (setup.apply stop')
      rw [hnested] at hinner
      rw [hstop]
      linarith
    · exact absurd hkind (hnot _ _ _)

private theorem distance_end_le (h : expand lib n key = some m) (filled : m.Filled)
    (occupied : m.elements ≠ []) {setup : Setup ℝ} (rigid : setup.placement.Rigid)
    {w w' : Writer ℝ} (emits : m.emit setup w = .ok w') :
    w'.head.xy.distance (setup.apply m.stop) ≤ slack m.depth := by
  induction n generalizing key m setup w w' with
  | zero => cases h
  | succ n ih =>
    obtain ⟨layer, hlevel⟩ := exists_expanded h
    obtain ⟨p, hp⟩ : ∃ p, m.elements.getLast? = some p :=
      ⟨_, List.getLast?_eq_some_getLast occupied⟩
    obtain ⟨e, he, hresolved⟩ := exists_getLast?_of_forall₂ hlevel.elements hp
    have hcursor : Route.cursor m.start (routeOf layer m.start m.stop).elements = e.stop := by
      rw [Route.cursor, he]
    have hlast : LastStep setup w' p := by
      obtain ⟨name, settings, start, stop, elements, probes⟩ := m
      exact Model.lastStep_of_emitElements emits hp
    have hmem : p ∈ m.elements := List.mem_of_getLast? hp
    have hclose := distance_last_le m.depth hresolved
      (isProbe_of_mem_route (List.mem_of_getLast? he)) rigid
      (fun sub t w hsub hplaces hrigid hemits => by
        obtain ⟨k, -, hk⟩ := Option.bind_eq_some_iff.mp hsub
        obtain ⟨hoccupied, hfilled⟩ := filled.placed hmem hplaces
        have hinner := ih hk hfilled hoccupied hrigid hemits
        have hdeeper := slack_add_four_le (Model.depth_lt hmem hplaces)
        linarith) hlast
    have hend := hlevel.distance_cursor_le rigid
    rw [hcursor] at hend
    have htriangle := Point.distance_triangle w'.head.xy (setup.apply e.stop) (setup.apply m.stop)
    linarith

/-- The moves of a path end at its end. If the head is over the start of a path that a builder
finds, as a rigid setup places it, and every path placed in it has an element on its route, then the
moves of the path leave the head within `4 d + 2` tolerances of its end, where `d` is the number of
levels of paths below it. -/
theorem emit_ends_at_end {lib : Library ℝ} {calls : List (PathName × Bindings)} {m : Model ℝ}
    (found : some m ∈ ((builds lib calls).run initial).1) (filled : m.Filled) {setup : Setup ℝ}
    (rigid : setup.placement.Rigid) {w w' : Writer ℝ} (starts : w.head.xy = setup.apply m.start)
    (emits : m.emit setup w = .ok w') :
    w'.head.xy.distance (setup.apply m.stop) ≤ (4 * m.depth + 2) * positionTolerance := by
  obtain ⟨call, -, hmodel⟩ := exists_hasModel_of_mem_builds found
  by_cases hempty : m.elements = []
  · -- Nothing moves the head, and a route without elements is one from the end to the end.
    obtain ⟨n, layer, hlevel⟩ := hmodel.exists_expanded
    have hroute : (routeOf layer m.start m.stop).elements = [] := by
      have hlength := hlevel.elements.length_eq
      rw [hempty, List.length_nil] at hlength
      exact List.length_eq_zero_iff.mp hlength
    have hend := hlevel.distance_cursor_le rigid
    rw [hroute] at hend
    have hstill : w' = w := by
      obtain ⟨name, settings, start, stop, elements, probes⟩ := m
      obtain rfl : elements = [] := hempty
      rw [Model.emit, Model.emitElements] at emits
      exact (Except.ok.inj emits).symm
    have hslack := two_le_slack m.depth
    rw [hstill, starts, ← slack_eq]
    have hstart : (setup.apply m.start).distance (setup.apply m.stop) ≤ positionTolerance := hend
    linarith [positionTolerance_pos]
  · obtain ⟨n, hn⟩ := hmodel
    rw [← slack_eq]
    exact distance_end_le hn filled hempty rigid emits

/-- The sheet, turned by a right angle and shifted, with the hole one level below it. -/
theorem emit_ends_at_end_sheet :
    let setup : Setup ℝ := ⟨⟨0, 1, ⟨7.0, 0⟩⟩, []⟩
    let w : Writer ℝ := .start ⟨7.0, 5.0, 10.0⟩
    some sheetModel ∈ ((builds sheets [(.ofText "Sheet", ∅)]).run initial).1 ∧
      sheetModel.Filled ∧ setup.placement.Rigid ∧ w.head.xy = setup.apply sheetModel.start ∧
      ∃ w', sheetModel.emit setup w = .ok w' ∧
        w'.head.xy.distance (setup.apply sheetModel.stop) ≤ (4 * 1 + 2) * positionTolerance := by
  intro setup w
  have hfound : some sheetModel ∈ ((builds sheets [(.ofText "Sheet", ∅)]).run initial).1 := by
    rw [run_sheets, List.mem_singleton]
  have hfilled : sheetModel.Filled := by
    intro p hp sub t hplaces
    rcases Model.hasElement_iff.mp hp with hp | ⟨q, hq, model, placement, hmodel, hp⟩
    · obtain rfl := List.mem_singleton.mp hp
      obtain ⟨rfl, -⟩ := Prod.mk.inj (Option.some.inj hplaces)
      simp [probedModel, pointModel]
    · obtain rfl := List.mem_singleton.mp hq
      obtain ⟨rfl, -⟩ := Prod.mk.inj (Option.some.inj hmodel)
      rcases Model.hasElement_iff.mp hp with hp | ⟨r, hr, model, placement, hmodel, -⟩
      · obtain rfl := List.mem_singleton.mp hp
        cases hplaces
      · obtain rfl := List.mem_singleton.mp hr
        cases hmodel
  have hrigid : setup.placement.Rigid := by norm_num [Placement.Rigid, setup]
  have hstarts : w.head.xy = setup.apply sheetModel.start := by
    norm_num [w, setup, Setup.apply, Placement.apply, sheetModel, Head.xy]
  have hemits : ∃ w', sheetModel.emit setup w = .ok w' := ⟨_, rfl⟩
  obtain ⟨w', hemits⟩ := hemits
  have hend := emit_ends_at_end hfound hfilled hrigid hstarts hemits
  have hdepth : sheetModel.depth = 1 := by
    simp [Model.depth_eq, Model.placedDepth, sheetModel, probedModel, pointModel]
  rw [hdepth, Nat.cast_one] at hend
  exact ⟨hfound, hfilled, hrigid, hstarts, w', hemits, hend⟩

end Toolpath.Build
