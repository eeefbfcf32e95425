import Toolpath.Proofs.Builder.Answers
import Toolpath.Proofs.Builder.Expansion
import Toolpath.Proofs.Builder.Problems
import Toolpath.Proofs.Params.Ranges

/-!
The settings in models. Every overlay that a model can have in its settings was read from texts or
holds the defaults, so its values are in range; and the settings of a path and of each element on
its route are checked for values that do not go together while the model is constructed. Without
errors the settings of a model are sound, and so are those of all models placed in it.
-/

set_option autoImplicit false

namespace Toolpath

variable {α : Type}

/-- A model placed in another one, at any depth, or that model itself. -/
inductive Model.Within : Model α → Model α → Prop
  | self (m : Model α) : Within m m
  | placed {inner sub m : Model α} {p : Placed α (Model α)} {t : Placement α}
      (element : p ∈ m.elements) (places : p.sub = some (sub, t)) (within : Within inner sub) :
      Within inner m

variable [Scalar α]

/-- The settings of a path and of all elements on its route are sound. -/
structure Model.SoundSettings (m : Model α) : Prop where
  path : m.settings.Sound
  elements : ∀ p ∈ m.elements, p.settings.Sound

namespace Build

section Values

variable {P : Field → α → Prop}

theorem only_base {defaults : Defaults α} (h : defaults.overlay.Only P) (reads : Overlay.Reads P)
    (layer : Layer α) (bindings : Bindings) : (scopeOf defaults layer bindings).1.base.Only P := by
  have hdefaults : (Settings.ofDefaults defaults).Only P := by
    intro o ho
    rw [List.mem_singleton.mp ho]
    exact h
  exact hdefaults.push (Overlay.only_read reads _ _ _ _)

theorem only_levels (reads : Overlay.Reads P) (defaults : Defaults α) (layer : Layer α)
    (bindings : Bindings) : ∀ o ∈ (scopeOf defaults layer bindings).1.levels, o.Only P := by
  intro o ho
  obtain ⟨read, hread, rfl⟩ := List.mem_map.mp ho
  obtain ⟨level, -, hlevel⟩ := List.mem_filterMap.mp hread
  obtain ⟨texts, -, rfl⟩ := Option.map_eq_some_iff.mp hlevel
  exact Overlay.only_read reads _ _ _ _

theorem only_settingsOf {scope : Scope α} (reads : Overlay.Reads P) (base : scope.base.Only P)
    (levels : ∀ o ∈ scope.levels, o.Only P) (e : Element α) : (settingsOf scope e).1.Only P := by
  have houter (ls : List Level) (s : Settings α) (hs : s.Only P) :
      (ls.foldl (fun s level => s.push? (scope.level? level)) s).Only P := by
    induction ls generalizing s with
    | nil => exact hs
    | cons level ls ih =>
      refine ih _ (hs.push? fun o ho => ?_)
      exact levels o (List.mem_of_find?_eq_some ho)
  have hscope : (scope.outer e).Only P := houter e.levels scope.base base
  unfold settingsOf
  split
  · exact hscope.push (Overlay.only_empty _ _)
  · exact hscope.push (Overlay.only_read reads _ _ _ _)

end Values

theorem Resolved.placed {scope : Scope α} {e : Element α} {events : List (Event α)}
    {p : Placed α (Model α)} (h : Resolved scope e events (some p)) :
    p.settings = (settingsOf scope e).1 ∧
      ∀ sub t, p.sub = some (sub, t) → ∃ key, .placed key (some sub) ∈ events := by
  obtain ⟨outcome, hanswered, hp⟩ := h.outcome
  unfold resolved at hp
  dsimp only at hp
  split at hp
  · next start stop target hkind =>
    obtain ⟨model, rfl, hfits⟩ := Option.bind_eq_some_iff.mp hp.symm
    obtain ⟨t, -, rfl⟩ := Option.map_eq_some_iff.mp hfits
    refine ⟨rfl, ?_⟩
    rintro sub t' ⟨⟩
    unfold Answered at hanswered
    split at hanswered
    · cases hanswered
    · exact ⟨_, hanswered⟩
  · obtain rfl := Option.some.inj hp
    exact ⟨rfl, fun _ _ hsub => by cases hsub⟩

def Broken (s : BuildState α) : Prop := ∃ d ∈ s.problems, IsRuleProblem d

def SoundOutcome (outcome : Option (Model α)) : Prop :=
  ∀ m, outcome = some m → ∀ inner, Model.Within inner m → inner.SoundSettings

private theorem problems_eq_nil {s : BuildState α} (h : ¬ Broken s) {settings : Settings α}
    (reported : ∀ d ∈ settings.problems, d ∈ s.problems) : settings.problems = [] := by
  refine List.eq_nil_iff_forall_not_mem.mpr fun d hd => ?_
  exact h ⟨d, reported d hd, settings, hd⟩

private theorem Constructed.sound [NumberScalar α] {defaults : Defaults α}
    (range : defaults.overlay.InRange) {layer : Layer α} {bindings : Bindings}
    {events : List (Event α)} {outcome : Option (Model α)} {s : BuildState α}
    (h : Constructed defaults layer bindings events outcome) (unbroken : ¬ Broken s)
    (reported : ∀ d, .reported d ∈ events → d ∈ s.problems)
    (placed : ∀ k r, .placed k r ∈ events → SoundOutcome r) : SoundOutcome outcome := by
  intro m hm inner hinner
  have hout := h.outcome
  split at hout
  · next start stop hstart hstop =>
    obtain ⟨elements, hresolved, rfl⟩ := hout
    obtain ⟨-, -, -, rfl⟩ := modelOf_eq_some_iff.mp hm
    let scope := (scopeOf defaults layer bindings).1
    have hbase : scope.base.InRange := only_base range Field.reads_admits layer bindings
    have hsettings (e : Element α) : (settingsOf scope e).1.InRange :=
      only_settingsOf Field.reads_admits hbase
        (only_levels Field.reads_admits defaults layer bindings) e
    have helement : ∀ p ∈ elements.filterMap id, ∃ e,
        Resolved (scopeOf defaults layer bindings).1 e events (some p) := by
      intro p hp
      obtain ⟨_, hmem, rfl⟩ := List.mem_filterMap.mp hp
      obtain ⟨e, -, he⟩ := hresolved.exists_of_mem_right hmem
      exact ⟨e, he⟩
    cases hinner with
    | self =>
      refine ⟨?_, fun p hp => ?_⟩
      · exact hbase.sound (problems_eq_nil unbroken fun d hd => reported d (h.reported d hd))
      · obtain ⟨e, he⟩ := helement p hp
        rw [he.placed.1]
        refine (hsettings e).sound (problems_eq_nil unbroken fun d hd => ?_)
        exact reported d (he.reported d hd)
    | placed hp places within =>
      obtain ⟨e, he⟩ := helement _ hp
      obtain ⟨key, hkey⟩ := he.placed.2 _ _ places
      exact placed key _ hkey _ rfl inner within
  · rw [hout] at hm
    cases hm

theorem answering_sound [NumberScalar α] {lib : Library α}
    (range : lib.defaults.overlay.InRange) :
    Answering lib Broken fun _ outcome => SoundOutcome outcome where
  lasts s s' h := by
    rintro ⟨d, hd, hrule⟩
    exact ⟨d, h.subset hd, hrule⟩
  congr _ _ _ _ h := h
  cycle _ _ _ _ m hm := by cases hm
  nested _ _ _ := Or.inr fun m hm => by cases hm
  undefined _ _ m hm := by cases hm
  built s key layer events outcome _ constructed reported placed := by
    by_cases hbroken : Broken s
    · exact Or.inl hbroken
    · exact Or.inr (constructed.sound range hbroken reported placed)

end Build

namespace Library

omit [Scalar α] in
theorem defaults_addAll (lib : Library α) (layers : List (Layer α)) :
    (lib.addAll layers).1.defaults = lib.defaults := by
  induction layers generalizing lib with
  | nil => rfl
  | cons l layers ih =>
    refine (ih (lib.add l).1).trans ?_
    unfold Library.add
    split <;> rfl

theorem problems_eq_nil {defaults : Defaults α} {layers : List (Layer α)}
    (h : (Report.empty.addAll (ofLayers defaults layers).2).hasErrors = false) :
    (ofLayers defaults layers).2 = [] := by
  refine List.eq_nil_iff_forall_not_mem.mpr fun d hd => ?_
  obtain ⟨w, hw, hwarning, -⟩ := Report.exists_warning_of_hasErrors_eq_false h hd
  have herror := allErrors_ofLayers defaults layers w hw
  rw [hwarning] at herror
  cases herror

end Library

namespace Build

/-- In a report without errors no rule was broken: what broke one reads like no warning, so that it
could not have been lost. -/
theorem not_broken_of_hasErrors {lib : Library α} {calls : List (PathName × Bindings)}
    {problems : List (Diagnostic α)} (none : problems = [])
    (clean : ((Report.empty.addAll problems).addAll
      ((builds lib calls).run initial).2.problems).hasErrors = false) :
    ¬ Broken ((builds lib calls).run initial).2 := by
  rintro ⟨d, hd, hrule⟩
  subst none
  -- If the problem is not in the report, what took its place is a warning with its text.
  obtain ⟨w, hw, hwarning, htext⟩ := Report.exists_warning_of_hasErrors_eq_false clean hd
  rcases builds_allKnown lib calls w hw with herror | ⟨settings, context, radius, hhelix⟩
  · rw [hwarning] at herror
    cases herror
  · exact text_ne_of_isRuleProblem hrule hhelix htext

/-- Runs without errors have sound settings. If the defaults are numbers, and no error was reported
for the library of some layers and for some calls of a builder, then in every model that the calls
found and in every model placed in it, the settings of the path and of each element on its route are
sound. -/
theorem sound_settings_of_no_errors (defaults : Defaults Float) (layers : List (Layer Float))
    (calls : List (PathName × Bindings))
    (numbers : ∀ f value, defaults.value f = some value → Scalar.isNaN value = false)
    (clean : ((Report.empty.addAll (Library.ofLayers defaults layers).2).addAll
      ((builds (Library.ofLayers defaults layers).1 calls).run initial).2.problems).hasErrors
        = false)
    (m : Model Float)
    (found : some m ∈ ((builds (Library.ofLayers defaults layers).1 calls).run initial).1)
    (inner : Model Float) (within : Model.Within inner m) : inner.SoundSettings := by
  have hlibrary := Library.problems_eq_nil (Report.hasErrors_eq_false_of_addAll clean)
  have hrange : (Library.ofLayers defaults layers).1.defaults.overlay.InRange := by
    have hdefaults : (Library.ofLayers defaults layers).1.defaults = defaults :=
      Library.defaults_addAll ⟨[], defaults⟩ layers
    rw [hdefaults]
    refine Defaults.inRange_overlay (List.append_eq_nil_iff.mp hlibrary).1 fun f value hvalue => ?_
    simpa [Scalar.isNaN] using numbers f value hvalue
  have hunbroken := not_broken_of_hasErrors hlibrary clean
  obtain ⟨-, hanswers⟩ := ((answering_sound hrange).builds calls).resolve_left hunbroken
  obtain ⟨call, -, hsound⟩ := hanswers.exists_of_mem_right found
  exact hsound m rfl inner within

def pointPath (name : String) : Layer Float :=
  ((Layer.empty (.ofText name)).addAnchor .start .origin).addAnchor .stop .origin

def plate : List (Layer Float) :=
  let hole := (pointPath "Hole").addElement ⟨.drill .origin false, none, .ofList [('I', "0.5")]⟩
  [(pointPath "Plate").addElement
      ⟨.subPath .origin .origin (.ofText "Hole"), none, .ofList [('T', "1.5")]⟩,
    ((hole.setParam 'B' "-2").setParam 'S' "5").setParam 'T' "$T"]

def plateRun : List (Option (Model Float)) × BuildState Float :=
  (builds (Library.ofLayers .standard plate).1 [(.ofText "Plate", ∅)]).run initial

def firstPlaced (m : Model Float) : Option (Model Float) :=
  m.elements.head?.bind fun p => p.sub.map Prod.fst

theorem within_of_firstPlaced {m inner : Model Float} (h : firstPlaced m = some inner) :
    Model.Within inner m := by
  obtain ⟨p, hp, hsub⟩ := Option.bind_eq_some_iff.mp h
  obtain ⟨⟨sub, t⟩, hplaces, rfl⟩ := Option.map_eq_some_iff.mp hsub
  exact .placed (List.mem_of_mem_head? hp) hplaces (.self sub)

set_option maxRecDepth 10000 in
theorem sound_settings_plate :
    ((Report.empty.addAll (Library.ofLayers .standard plate).2).addAll
      plateRun.2.problems).hasErrors = false ∧
    ∃ m hole, plateRun.1 = [some m] ∧ firstPlaced m = some hole ∧
      (hole.elements.map fun p => (p.settings.get? .top).isSome) = [true] ∧
      hole.SoundSettings := by
  have clean : ((Report.empty.addAll (Library.ofLayers .standard plate).2).addAll
      plateRun.2.problems).hasErrors = false := by decide +kernel
  have numbers : ∀ f value, (Defaults.standard : Defaults Float).value f = some value →
      Scalar.isNaN value = false := by
    intro f value h
    cases f <;> cases h <;> decide +kernel
  have run : plateRun.1.map (fun outcome => (outcome.bind firstPlaced).map fun hole =>
      hole.elements.map fun p => (p.settings.get? .top).isSome) = [some [true]] := by
    decide +kernel
  obtain ⟨outcome, hrun, houtcome⟩ := List.map_eq_singleton_iff.mp run
  obtain ⟨hole, hhole, htop⟩ := Option.map_eq_some_iff.mp houtcome
  obtain ⟨m, rfl, hplaced⟩ := Option.bind_eq_some_iff.mp hhole
  refine ⟨clean, m, hole, hrun, hplaced, htop, ?_⟩
  have found : some m ∈ plateRun.1 := by simp [hrun]
  exact sound_settings_of_no_errors .standard plate [(.ofText "Plate", ∅)] numbers clean m found hole
    (within_of_firstPlaced hplaced)

end Build

end Toolpath
