import Toolpath.Proofs.Builder.Levels
import Toolpath.Proofs.Builder.Settings
import Toolpath.Proofs.Hole.Narrow

/-!
Helices that are hardly wider than the bit. The builder warns of a helix that will be drilled, and
the generator drills it, but each decides for itself: the builder asks whether the radius is more
than that of the bit, the generator whether it is more by the tolerance of positions. A helix in
between is drilled without a warning.
-/

set_option autoImplicit false

namespace Toolpath.Build

variable {α : Type} [Scalar α]

section Warnings

variable {scope : Scope α} {e : Element α} {center : Point α} {radius : α} {mark : Bool}

def narrowWarning (context : Context α) (radius bit : α) : Diagnostic α :=
  .warning context "helix radius {0} is not larger than the bit radius {1}, drilling instead"
    [Scalar.coordinate radius, Scalar.coordinate (bit / 2.0)]

private theorem helixProblems_eq {settings : Settings α} {bit : α}
    (h : settings.get? .bitDiameter = some bit) (context : Context α) (radius : α) :
    helixProblems settings context radius =
      if radius ≤ bit / 2.0 then [narrowWarning context radius bit] else [] := by
  unfold helixProblems
  rw [h]
  rfl

def reports (scope : Scope α) (e : Element α) (radius : α) : List (Diagnostic α) :=
  (settingsOf scope e).2 ++ (settingsOf scope e).1.problems ++
    helixProblems (settingsOf scope e).1 (e.context scope.path) radius

private theorem run_resolve_helix (kind : e.kind = .helix center radius mark)
    (place : ModelKey → Build α (Option (Model α))) (s : BuildState α) :
    (resolve place scope e).run s =
      (some ⟨e, (settingsOf scope e).1, none⟩, s.report (reports scope e radius)) := by
  have hreport (first later : List (Diagnostic α)) :
      (s.report first).report later = s.report (first ++ later) := by
    simp [BuildState.report]
  unfold resolve
  dsimp only
  split
  · next hkind =>
    obtain ⟨-, rfl, -⟩ := ElementKind.helix.inj (kind.symm.trans hkind)
    unfold reports
    rw [← hreport, ← hreport]
    rfl
  · next hkind =>
    rw [kind] at hkind
    cases hkind
  · next hhelix _ => exact absurd kind (hhelix _ _ _)

private theorem narrowWarning_mem_reports_iff {bit : α}
    (h : (settingsOf scope e).1.get? .bitDiameter = some bit) (radius : α) :
    narrowWarning (e.context scope.path) radius bit ∈ reports scope e radius ↔
      radius ≤ bit / 2.0 := by
  have herrors : AllErrors ((settingsOf scope e).2 ++ (settingsOf scope e).1.problems) :=
    List.forall_mem_append.mpr ⟨allErrors_settingsOf scope e, Settings.allErrors_problems _⟩
  have hnot : narrowWarning (e.context scope.path) radius bit ∉
      (settingsOf scope e).2 ++ (settingsOf scope e).1.problems := by
    intro hmem
    cases herrors _ hmem
  rw [reports, List.mem_append, or_iff_right hnot, helixProblems_eq h]
  split
  · next hnarrow => simp [hnarrow]
  · next hwide => simp [hwide]

end Warnings

/-- Where an element of a model comes from: from the layer of a key, with a warning among some
problems if it is a helix that is to be warned of. -/
structure Drawn (lib : Library α) (problems : List (Diagnostic α)) (m : Model α)
    (p : Placed α (Model α)) (key : ModelKey) (layer : Layer α) : Prop where
  found : lib.get? key.name = some layer
  name : (scopeOf lib.defaults layer key.bindings).1.path = m.name
  route : p.element ∈ (routeOf layer m.start m.stop).elements
  helix : ∀ center radius mark, p.element.kind = .helix center radius mark →
    p = ⟨p.element, (settingsOf (scopeOf lib.defaults layer key.bindings).1 p.element).1, none⟩ ∧
      ∀ d ∈ helixProblems p.settings (p.element.context m.name) radius, d ∈ problems

def DrawnOutcome (lib : Library α) (problems : List (Diagnostic α))
    (outcome : Option (Model α)) : Prop :=
  ∀ m, outcome = some m → ∀ inner, Model.Within inner m → ∀ p ∈ inner.elements,
    ∃ key layer, Drawn lib problems inner p key layer

private theorem Constructed.drawn {lib : Library α} {problems : List (Diagnostic α)}
    {key : ModelKey} {layer : Layer α} {events : List (Event α)} {outcome : Option (Model α)}
    (h : Constructed lib.defaults layer key.bindings events outcome)
    (found : lib.get? key.name = some layer) (reported : ∀ d, .reported d ∈ events → d ∈ problems)
    (placed : ∀ k r, .placed k r ∈ events → DrawnOutcome lib problems r) :
    DrawnOutcome lib problems outcome := by
  intro m hm inner hinner p hp
  have hout := h.outcome
  split at hout
  · next start stop hstart hstop =>
    obtain ⟨elements, hresolved, rfl⟩ := hout
    obtain ⟨-, -, -, rfl⟩ := modelOf_eq_some_iff.mp hm
    cases hinner with
    | self =>
      obtain ⟨_, hmem, rfl⟩ := List.mem_filterMap.mp hp
      obtain ⟨e, hroute, he⟩ := hresolved.exists_of_mem_right hmem
      obtain ⟨result, -, hresult⟩ := he.outcome
      obtain rfl := (of_resolved hresult.symm).1
      refine ⟨key, layer, found, rfl, hroute, fun center radius mark hkind => ?_⟩
      have hp : p = ⟨p.element,
          (settingsOf (scopeOf lib.defaults layer key.bindings).1 p.element).1, none⟩ := by
        simpa [resolved, hkind] using hresult
      refine ⟨hp, fun d hd => reported d (he.warned center radius mark hkind d ?_)⟩
      rw [hp] at hd
      exact hd
    | placed element places within =>
      obtain ⟨_, hmem, rfl⟩ := List.mem_filterMap.mp element
      obtain ⟨e, -, he⟩ := hresolved.exists_of_mem_right hmem
      obtain ⟨k, hk⟩ := he.placed.2 _ _ places
      exact placed k _ hk _ rfl inner within p hp
  · rw [hout] at hm
    cases hm

private theorem answering_drawn (lib : Library α) (problems : List (Diagnostic α)) :
    Answering lib (fun s => ¬ s.problems <+: problems) fun _ => DrawnOutcome lib problems where
  lasts s s' grows away within := away (grows.trans within)
  congr _ _ _ _ h := h
  cycle _ _ _ _ m hm := by cases hm
  nested _ _ _ := Or.inr fun m hm => by cases hm
  undefined _ _ m hm := by cases hm
  built s key layer events outcome found constructed reported placed := by
    by_cases hwithin : s.problems <+: problems
    · exact Or.inr (constructed.drawn found (fun d hd => hwithin.subset (reported d hd)) placed)
    · exact Or.inl hwithin

private theorem exists_drawn {lib : Library α} {calls : List (PathName × Bindings)} {m : Model α}
    (found : some m ∈ ((builds lib calls).run initial).1) {inner : Model α}
    (within : Model.Within inner m) {p : Placed α (Model α)} (element : p ∈ inner.elements) :
    ∃ key layer, Drawn lib ((builds lib calls).run initial).2.problems inner p key layer := by
  have hprefix : ¬ ¬ ((builds lib calls).run initial).2.problems <+:
      ((builds lib calls).run initial).2.problems :=
    not_not_intro List.prefix_rfl
  obtain ⟨-, hanswers⟩ := ((answering_drawn lib _).builds calls).resolve_left hprefix
  obtain ⟨call, -, hdrawn⟩ := hanswers.exists_of_mem_right found
  exact hdrawn m rfl inner within p element

private theorem exists_bore_of_emitSingle {element : Element α} {settings : Settings α}
    {center : Point α}
    {radius : α} {mark : Bool} (kind : element.kind = .helix center radius mark) {setup : Setup α}
    {v v' : Writer α} (emits : Model.emitSingle element settings v setup = .ok v') :
    ∃ bit p, settings.get? .bitDiameter = some bit ∧
      v' = HoleParams.bore p v setup (setup.apply center) radius bit := by
  unfold Model.emitSingle at emits
  rw [kind] at emits
  obtain ⟨p, -, emits⟩ := Model.bind_eq_ok.mp emits
  obtain ⟨bit, hbit, emits⟩ := Model.bind_eq_ok.mp emits
  exact ⟨bit, p, Settings.get?_of_require hbit, (Except.ok.inj emits).symm⟩

/-- What decides over a helix. If a model that some calls found, or one placed in it, emits its
moves, then each helix on its route comes from a layer and has a bit. While it was resolved, the
builder warned of it if and only if its radius is no more than that of the bit; what is written for
it is a drilling cycle if and only if its radius is no more than that of the bit and the tolerance
of positions. -/
theorem narrow_helix (lib : Library α) (calls : List (PathName × Bindings)) (m : Model α)
    (found : some m ∈ ((builds lib calls).run initial).1) (inner : Model α)
    (within : Model.Within inner m) (front back : List (Placed α (Model α)))
    (p : Placed α (Model α)) (route : inner.elements = front ++ p :: back) (center : Point α)
    (radius : α) (mark : Bool) (kind : p.element.kind = .helix center radius mark)
    (setup : Setup α) (w w' : Writer α) (emits : inner.emit setup w = .ok w') :
    ∃ (key : ModelKey) (layer : Layer α) (bit : α) (reported : List (Diagnostic α))
        (v v' : Writer α),
      let scope := (scopeOf lib.defaults layer key.bindings).1
      let warning := narrowWarning (p.element.context inner.name) radius bit
      (lib.get? key.name = some layer ∧ p.element ∈ (routeOf layer inner.start inner.stop).elements ∧
        p.settings.get? .bitDiameter = some bit) ∧
      (∀ place s, (resolve place scope p.element).run s = (some p, s.report reported)) ∧
      (warning ∈ reported ↔ radius ≤ bit / 2.0) ∧
      (warning ∈ reported → warning ∈ ((builds lib calls).run initial).2.problems) ∧
      (Model.emitElements setup none w front = .ok v ∧
        Model.emitSingle p.element p.settings v setup = .ok v' ∧
        Model.emitElements setup none v' back = .ok w') ∧
      (DrillingCycle (v.since v') ↔ radius - bit / 2.0 ≤ positionTolerance) := by
  have helement : p ∈ inner.elements := by simp [route]
  obtain ⟨key, layer, hdrawn⟩ := exists_drawn found within helement
  obtain ⟨hp, hwarned⟩ := hdrawn.helix center radius mark kind
  have hemits : Model.emitElements setup none w (front ++ p :: back) = .ok w' := by
    rw [← route]
    cases inner
    exact emits
  obtain ⟨v, v', hfront, hsingle, hback⟩ := Model.exists_emitSingle_of_emitElements
    (by simp [kind]) (by simp [kind]) front hemits
  obtain ⟨bit, hole, hbit, hbore⟩ := exists_bore_of_emitSingle kind hsingle
  have hsettings : (settingsOf (scopeOf lib.defaults layer key.bindings).1 p.element).1 =
      p.settings := by rw [hp]
  have hreported := narrowWarning_mem_reports_iff (hsettings.symm ▸ hbit) radius
  rw [hdrawn.name] at hreported
  refine ⟨key, layer, bit, _, v, v', ⟨hdrawn.found, hdrawn.route, hbit⟩, fun place s => ?_,
    hreported, fun hmem => hwarned _ ?_, ⟨hfront, hsingle, hback⟩, ?_⟩
  · rw [run_resolve_helix kind, ← hp]
  · rw [helixProblems_eq hbit, if_pos (hreported.mp hmem)]
    exact List.mem_singleton.mpr rfl
  · rw [hbore]
    exact hole.drillingCycle_bore_iff setup _ v radius bit

section Bits

def helixPath (radius : Float) : List (Layer Float) :=
  let drawn := (pointPath "H").addElement ⟨.helix .origin radius false, none, ∅⟩
  [(drawn.setParam 'T' "0").setParam 'B' "-2"]

def helixRun (radius : Float) : List (Option (Model Float)) × BuildState Float :=
  (builds (Library.ofLayers .standard (helixPath radius)).1 [(.ofText "H", ∅)]).run initial

def overHelix : Writer Float := .start ⟨0.0, 0.0, 10.0⟩

/-- For a helix, whether the builder and whether the generator takes it to be too narrow. -/
def decisions (p : Placed Float (Model Float)) : Option (Bool × Bool) :=
  match p.element.kind, p.settings.get? .bitDiameter with
  | .helix _ radius _, some bit =>
    some (decide (radius ≤ bit / 2.0), decide (radius - bit / 2.0 ≤ positionTolerance))
  | _, _ => none

private theorem exists_of_decisions {p : Placed Float (Model Float)} {warned drilled : Bool}
    (h : decisions p = some (warned, drilled)) :
    ∃ center radius mark bit, p.element.kind = .helix center radius mark ∧
      p.settings.get? .bitDiameter = some bit ∧ decide (radius ≤ bit / 2.0) = warned ∧
      decide (radius - bit / 2.0 ≤ positionTolerance) = drilled := by
  unfold decisions at h
  split at h
  · next center radius mark bit hkind hbit =>
    obtain ⟨hwarned, hdrilled⟩ := Prod.mk.inj (Option.some.inj h)
    exact ⟨center, radius, mark, bit, hkind, hbit, hwarned, hdrilled⟩
  · cases h

private theorem exists_of_helixRun {radius : Float} {warned drilled : Bool}
    (run : (helixRun radius).1.map (fun outcome => outcome.map fun m =>
      (m.elements.map decisions, (m.emit .identity overHelix).isOk)) =
        [some ([some (warned, drilled)], true)]) :
    ∃ m p w', (helixRun radius).1 = [some m] ∧ m.elements = [p] ∧
      decisions p = some (warned, drilled) ∧ m.emit .identity overHelix = .ok w' := by
  obtain ⟨outcome, hrun, houtcome⟩ := List.map_eq_singleton_iff.mp run
  obtain ⟨m, rfl, hm⟩ := Option.map_eq_some_iff.mp houtcome
  obtain ⟨helements, hemits⟩ := Prod.mk.inj hm
  obtain ⟨p, hp, hdecisions⟩ := List.map_eq_singleton_iff.mp helements
  cases hemit : m.emit .identity overHelix with
  | error e =>
    rw [hemit] at hemits
    cases hemits
  | ok w' => exact ⟨m, p, w', hrun, hp, hdecisions, hemit⟩

/-- A helix of radius 1 is warned of and drilled. -/
theorem narrow_helix_warned :
    ∃ (m : Model Float) (p : Placed Float (Model Float)) (center : Point Float) (radius bit : Float)
        (mark : Bool) (w' v v' : Writer Float),
      some m ∈ (helixRun 1.0).1 ∧ m.Within m ∧ m.elements = [] ++ p :: [] ∧
        p.element.kind = .helix center radius mark ∧ m.emit .identity overHelix = .ok w' ∧
        narrowWarning (p.element.context m.name) radius bit ∈ (helixRun 1.0).2.problems ∧
        Model.emitSingle p.element p.settings v .identity = .ok v' ∧
        DrillingCycle (v.since v') := by
  have run : (helixRun 1.0).1.map (fun outcome => outcome.map fun m =>
      (m.elements.map decisions, (m.emit .identity overHelix).isOk)) =
        [some ([some (true, true)], true)] := by
    decide +kernel
  obtain ⟨m, p, w', hrun, helements, hdecisions, hemits⟩ := exists_of_helixRun run
  obtain ⟨center, radius, mark, bit, hkind, hbit, hwarned, hdrilled⟩ :=
    exists_of_decisions hdecisions
  have hfound : some m ∈ (helixRun 1.0).1 := by simp [hrun]
  obtain ⟨_, _, bit', _, v, v', ⟨-, -, hbit'⟩, -, hwarns, hreported, ⟨-, hsingle, -⟩, hdrills⟩ :=
    narrow_helix _ _ m hfound m (.self m) [] [] p helements center radius mark hkind .identity
      overHelix w' hemits
  obtain rfl := Option.some.inj (hbit.symm.trans hbit')
  exact ⟨m, p, center, radius, bit, mark, w', v, v', hfound, .self m, helements, hkind, hemits,
    hreported (hwarns.mpr (of_decide_eq_true hwarned)), hsingle,
    hdrills.mpr (of_decide_eq_true hdrilled)⟩

/-- A helix of radius 1.5004 is drilled without a warning, though it is wider than a bit of radius
1.5. -/
theorem helix_drilled_unwarned :
    ∃ (m : Model Float) (p : Placed Float (Model Float)) (center : Point Float) (radius : Float)
        (mark : Bool) (w' : Writer Float),
      (helixRun 1.5004).1 = [some m] ∧ (helixRun 1.5004).2.problems = [] ∧ m.elements = [p] ∧
        p.element.kind = .helix center radius mark ∧ m.emit .identity overHelix = .ok w' ∧
        DrillingCycle (overHelix.since w') := by
  have run : (helixRun 1.5004).1.map (fun outcome => outcome.map fun m =>
      (m.elements.map decisions, (m.emit .identity overHelix).isOk)) =
        [some ([some (false, true)], true)] := by
    decide +kernel
  have silent : (helixRun 1.5004).2.problems.isEmpty = true := by decide +kernel
  obtain ⟨m, p, w', hrun, helements, hdecisions, hemits⟩ := exists_of_helixRun run
  obtain ⟨center, radius, mark, bit, hkind, hbit, -, hdrilled⟩ := exists_of_decisions hdecisions
  refine ⟨m, p, center, radius, mark, w', hrun, List.isEmpty_iff.mp silent, helements, hkind, hemits,
    ?_⟩
  have hroute : Model.emitElements .identity none overHelix ([] ++ p :: []) = .ok w' := by
    rw [List.nil_append, ← helements]
    cases m
    exact hemits
  obtain ⟨v, v', hfront, hsingle, hback⟩ := Model.exists_emitSingle_of_emitElements
    (by simp [hkind]) (by simp [hkind]) [] hroute
  rw [Model.emitElements] at hfront hback
  obtain rfl := Except.ok.inj hfront
  obtain rfl := Except.ok.inj hback
  obtain ⟨bit', hole, hbit', rfl⟩ := exists_bore_of_emitSingle hkind hsingle
  obtain rfl := Option.some.inj (hbit.symm.trans hbit')
  exact (hole.drillingCycle_bore_iff .identity _ overHelix radius bit).mpr
    (of_decide_eq_true hdrilled)

end Bits

end Toolpath.Build
