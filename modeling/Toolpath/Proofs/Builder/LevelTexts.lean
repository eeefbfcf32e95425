import Toolpath.Proofs.Builder.Levels
import Toolpath.Proofs.Builder.Names
import Toolpath.Proofs.Builder.Settings
import Toolpath.Proofs.Params.Entries

/-!
Where the texts of a layer take effect. A parameter of an element has the value of its own texts, or
else of the most specific level that applies to the element and sets it, or else of the path, or
else the default. The texts that a layer has for the level of paths are read like the others, but
apply to nothing.
-/

set_option autoImplicit false

namespace Toolpath

variable {α : Type}

namespace Settings

private theorem get?_push (s : Settings α) (o : Overlay α) (f : Field) :
    (s.push o).get? f = (o.get? f).or (s.get? f) := by
  rw [get?, push, List.findSome?_cons]
  cases o.get? f <;> rfl

private theorem get?_push? (s : Settings α) (o : Option (Overlay α)) (f : Field) :
    (s.push? o).get? f = (o.bind fun o => o.get? f).or (s.get? f) := by
  cases o with
  | none => rfl
  | some o => exact s.get?_push o f

private theorem get?_foldl_push? (overlay : Level → Option (Overlay α)) (levels : List Level)
    (s : Settings α) (f : Field) :
    (levels.foldl (fun s level => s.push? (overlay level)) s).get? f =
      (levels.reverse.findSome? fun level => (overlay level).bind fun o => o.get? f).or
        (s.get? f) := by
  induction levels generalizing s with
  | nil => rfl
  | cons level levels ih =>
    rw [List.foldl_cons, ih, get?_push?, List.reverse_cons, List.findSome?_append, Option.or_assoc]
    cases hlevel : (overlay level).bind fun o => o.get? f <;> simp [hlevel]

end Settings

namespace Level

def rank (level : Level) : Nat := all.idxOf level

/-- A level applies to the elements of its kind: that of paths to all, that of chains to cuts, that
of sweeps also to sweeps back, and that of marks to whatever is a mark. -/
def AppliesTo (level : Level) (e : Element α) : Prop :=
  match level, e.kind with
  | .path, _ => True
  | .chain, .cut .. => True
  | .mill, .cut _ marked => marked = false
  | .mark, .cut _ marked => marked = true
  | .mark, .helix _ _ marked => marked = true
  | .mark, .drill _ marked => marked = true
  | .helix, .helix .. => True
  | .drill, .drill .. => True
  | .sweep, .sweep .. => True
  | .sweep, .backSweep .. => True
  | .backSweep, .backSweep .. => True
  | .subPath, .subPath .. => True
  | .zProbe, .probe .. => True
  | _, _ => False

private theorem mem_levels_iff {level : Level} {e : Element α} :
    level ∈ e.levels ↔ level ≠ .path ∧ level.AppliesTo e := by
  unfold Element.levels AppliesTo
  rcases e.kind with ⟨_, _ | _⟩ | ⟨_, _, _ | _⟩ | ⟨_, _ | _⟩ | _ | _ | _ | _ <;>
    cases level <;> simp

private theorem pairwise_levels (e : Element α) :
    e.levels.Pairwise fun l l' => l.rank < l'.rank := by
  unfold Element.levels
  rcases e.kind with ⟨_, _ | _⟩ | ⟨_, _, _ | _⟩ | ⟨_, _ | _⟩ | _ | _ | _ | _ <;>
    dsimp only <;> decide

end Level

namespace Build

variable [Scalar α]

section Values

variable (layer : Layer α) (bindings : Bindings)

def pathValue (f : Field) : Option α :=
  (Overlay.read .path (.ofPath layer.name) layer.params bindings).1.get? f

def levelValue (level : Level) (f : Field) : Option α :=
  (layer.levelParams level).bind fun texts =>
    (Overlay.read level (.ofPath layer.name) texts bindings).1.get? f

/-- The value that a parameter has by the texts of an element; those of a placed path are variables
for it. -/
def ownValue (e : Element α) (f : Field) : Option α :=
  match e.kind with
  | .subPath .. => none
  | _ => (Overlay.read e.level (e.context layer.name) e.params bindings).1.get? f

end Values

omit [Scalar α] in
private theorem find?_filterMap_level {read : Level → Option (Overlay α)}
    (own : ∀ level o, read level = some o → o.level = level) (levels : List Level) (level : Level) :
    (levels.filterMap read).find? (fun o => o.level = level) =
      if level ∈ levels then read level else none := by
  induction levels with
  | nil => rfl
  | cons first levels ih =>
    rw [List.filterMap_cons]
    cases hfirst : read first with
    | none =>
      rw [ih]
      by_cases heq : level = first
      · simp [heq, hfirst]
      · simp [heq]
    | some o =>
      rw [List.find?_cons, own first o hfirst]
      by_cases heq : first = level
      · simp [← heq, hfirst]
      · simp [heq, Ne.symm heq, ih]

private theorem level?_scopeOf (defaults : Defaults α) (layer : Layer α) (bindings : Bindings)
    (level : Level) : (scopeOf defaults layer bindings).1.level? level =
      (layer.levelParams level).map fun texts =>
        (Overlay.read level (.ofPath layer.name) texts bindings).1 := by
  have hlevels : (scopeOf defaults layer bindings).1.levels = Level.all.filterMap fun level =>
      (layer.levelParams level).map fun texts =>
        (Overlay.read level (.ofPath layer.name) texts bindings).1 := by
    simp only [scopeOf, levelOverlays, List.map_filterMap, Option.map_map]
    rfl
  rw [Scope.level?, hlevels, find?_filterMap_level ?_ Level.all level, if_pos level.mem_all]
  intro level o ho
  obtain ⟨texts, -, rfl⟩ := Option.map_eq_some_iff.mp ho
  exact (Overlay.addEntries_frame _ bindings texts.entries).1

private theorem get?_settingsOf (defaults : Defaults α) (layer : Layer α) (bindings : Bindings)
    (e : Element α) (f : Field) :
    (settingsOf (scopeOf defaults layer bindings).1 e).1.get? f =
      (ownValue layer bindings e f).or
        ((e.levels.reverse.findSome? fun level => levelValue layer bindings level f).or
          ((pathValue layer bindings f).or (defaults.value f))) := by
  have hbase : (scopeOf defaults layer bindings).1.base.get? f =
      (pathValue layer bindings f).or (defaults.value f) := by
    have hdefaults : (Settings.ofDefaults defaults).get? f = defaults.value f := by
      rw [Settings.ofDefaults, Settings.get?, List.findSome?_singleton]
      rfl
    rw [← hdefaults]
    exact Settings.get?_push _ _ f
  have houter : ((scopeOf defaults layer bindings).1.outer e).get? f =
      (e.levels.reverse.findSome? fun level => levelValue layer bindings level f).or
        ((pathValue layer bindings f).or (defaults.value f)) := by
    rw [Scope.outer, Settings.get?_foldl_push?, hbase]
    simp only [level?_scopeOf, Option.bind_map]
    rfl
  rw [← houter]
  unfold settingsOf ownValue
  cases e.kind <;> exact Settings.get?_push _ _ f

/-- How the texts take effect on an element. Its own texts count first, then those of the levels
that apply to it, a later one before an earlier one, then those of the path, and at last the
default. -/
structure TakesEffect (defaults : Defaults α) (layer : Layer α) (bindings : Bindings)
    (e : Element α) (settings : Settings α) : Prop where
  own : ∀ f value, ownValue layer bindings e f = some value → settings.get? f = some value
  level : ∀ level f value, level ≠ .path → level.AppliesTo e →
    levelValue layer bindings level f = some value → ownValue layer bindings e f = none →
    (∀ later : Level, level.rank < later.rank → later.AppliesTo e →
      levelValue layer bindings later f = none) → settings.get? f = some value
  outer : ∀ f, ownValue layer bindings e f = none →
    (∀ level : Level, level ≠ .path → level.AppliesTo e →
      levelValue layer bindings level f = none) →
    settings.get? f = (pathValue layer bindings f).or (defaults.value f)

private theorem takesEffect_settingsOf (defaults : Defaults α) (layer : Layer α)
    (bindings : Bindings) (e : Element α) :
    TakesEffect defaults layer bindings e (settingsOf (scopeOf defaults layer bindings).1 e).1 where
  own f value hown := by
    rw [get?_settingsOf, hown, Option.some_or]
  level level f value hlevel happlies hvalue hown hlater := by
    -- the levels after this one set nothing, so it is the first that is found from the end
    obtain ⟨front, back, hsplit⟩ := List.append_of_mem (Level.mem_levels_iff.mpr ⟨hlevel, happlies⟩)
    have hback : back.reverse.findSome? (fun level => levelValue layer bindings level f) = none := by
      refine List.findSome?_eq_none_iff.mpr fun later hmem => ?_
      have hmem : later ∈ back := List.mem_reverse.mp hmem
      have hlevels := Level.pairwise_levels e
      rw [hsplit, List.pairwise_append, List.pairwise_cons] at hlevels
      have happlies : later ∈ e.levels := by
        rw [hsplit]
        exact List.mem_append_right _ (List.mem_cons_of_mem _ hmem)
      exact hlater later (hlevels.2.1.1 later hmem) (Level.mem_levels_iff.mp happlies).2
    rw [get?_settingsOf, hown, Option.none_or, hsplit, List.reverse_append, List.reverse_cons,
      List.append_assoc, List.findSome?_append, hback, Option.none_or, List.singleton_append,
      List.findSome?_cons, hvalue, Option.some_or]
  outer f hown hnone := by
    have hlevels : e.levels.reverse.findSome? (fun level => levelValue layer bindings level f) =
        none := by
      refine List.findSome?_eq_none_iff.mpr fun level hmem => ?_
      obtain ⟨hlevel, happlies⟩ := Level.mem_levels_iff.mp (List.mem_reverse.mp hmem)
      exact hnone level hlevel happlies
    rw [get?_settingsOf, hown, Option.none_or, hlevels, Option.none_or]

/-- How the texts of a layer take effect in a model: on each element of the route, and on each probe
of its own, which is expected at the height that is set for it. -/
structure TextsTakeEffect (defaults : Defaults α) (layer : Layer α) (bindings : Bindings)
    (m : Model α) : Prop where
  elements : List.Forall₂
    (fun e p => p.element = e ∧ TakesEffect defaults layer bindings e p.settings)
    (routeOf layer m.start m.stop).elements m.elements
  probes : ∃ own, m.probes = m.elements.flatMap placedProbes ++ own ∧
    List.Forall₂
      (fun e probe => probe.position = e.start ∧ ∃ settings : Settings α,
        TakesEffect defaults layer bindings e settings ∧
          (settings.get? .probeHeight).or (settings.get? .top) = some probe.target)
      (layer.elements.filter Element.isProbe) own

private theorem HasModel.exists_textsTakeEffect {lib : Library α} {key : ModelKey} {m : Model α}
    (h : HasModel lib key m) :
    ∃ layer, lib.get? key.name = some layer ∧
      TextsTakeEffect lib.defaults layer key.bindings m := by
  obtain ⟨n, layer, hlevel⟩ := h.exists_expanded
  obtain ⟨own, hown, hprobes⟩ := hlevel.probes
  refine ⟨layer, hlevel.found, hlevel.elements.imp fun e p hp => ?_, own, hprobes,
    hown.imp fun e probe hprobe => ?_⟩
  · obtain ⟨helement, hsettings⟩ := of_resolved hp
    exact ⟨helement, hsettings ▸ takesEffect_settingsOf _ _ _ e⟩
  · obtain ⟨hposition, htarget⟩ := of_bedProbe hprobe
    exact ⟨hposition, _, takesEffect_settingsOf _ _ _ e, htarget⟩

/-- The texts of a layer take effect on all that is drawn on it. In the model that a call finds, the
texts of the layer of that name do, read with the bindings of the call; and so do, in every model
that is placed in it at any depth, those of some layer. Only the texts for the level of paths do
not. -/
theorem level_texts_take_effect (lib : Library α) (calls : List (PathName × Bindings)) :
    List.Forall₂
      (fun call outcome => ∀ m, outcome = some m →
        (∃ layer, lib.get? call.1 = some layer ∧ TextsTakeEffect lib.defaults layer call.2 m) ∧
        ∀ inner : Model α, inner.Within m → ∃ (key : ModelKey) (layer : Layer α),
          lib.get? key.name = some layer ∧
            TextsTakeEffect lib.defaults layer key.bindings inner)
      calls ((builds lib calls).run initial).1 := by
  refine (builds_find lib calls).imp fun call outcome hfinds m hm => ?_
  have hmodel : HasModel lib ⟨call.1, call.2⟩ m := hfinds m hm
  refine ⟨hmodel.exists_textsTakeEffect, fun inner within => ?_⟩
  obtain ⟨key, -, hinner⟩ := hmodel.of_within within
  exact ⟨key, hinner.exists_textsTakeEffect⟩

section Drilled

open Binary64

def markedHole : Layer Float :=
  let drawn := (pointPath "A").addElement ⟨.drill .origin true, none, ∅⟩
  ((drawn.setParam 'T' "0").setLevelParam .mark 'B' "-1").setLevelParam .drill 'B' "-2"

def pathLevelHole : Layer Float :=
  let drawn := (pointPath "A").addElement ⟨.drill .origin false, none, ∅⟩
  (drawn.setParam 'T' "0").setLevelParam .path 'B' "-1"

def drilledRun (layer : Layer Float) : List (Option (Model Float)) × BuildState Float :=
  (builds (Library.ofLayers .standard [layer]).1 [(.ofText "A", ∅)]).run initial

private theorem levelValue_markedHole (bindings : Bindings) :
    levelValue markedHole bindings .drill .bottom = some (-2.0) := by
  let o : Overlay Float := .empty .drill (.ofPath markedHole.name)
  have hadd : o.addEntries bindings [('B', "-2")] = (o.set .bottom (-2.0)).addEntries bindings [] :=
    Overlay.addEntries_number (d := ⟨true, 2, 0⟩) .bottom (-2.0) (by decide) (by decide) rfl
      (by decide +kernel) (by decide +kernel) rfl
  change (o.addEntries bindings [('B', "-2")]).1.get? .bottom = _
  rw [hadd]
  rfl

/-- The depth for holes counts, for that level is the more specific one. -/
theorem level_texts_take_effect_markedHole :
    ∃ m p, (drilledRun markedHole).1 = [some m] ∧ m.elements = [p] ∧
      p.settings.get? .bottom = some (-2.0) := by
  have run : (drilledRun markedHole).1.map (fun outcome => outcome.map fun m => m.elements.length) =
      [some 1] := by
    decide +kernel
  obtain ⟨outcome, hrun, houtcome⟩ := List.map_eq_singleton_iff.mp run
  obtain ⟨m, rfl, hlength⟩ := Option.map_eq_some_iff.mp houtcome
  obtain ⟨p, helements⟩ := List.length_eq_one_iff.mp hlength
  have htexts := level_texts_take_effect (Library.ofLayers .standard [markedHole]).1
    [(.ofText "A", ∅)]
  rw [show ((builds _ _).run initial).1 = [some m] from hrun] at htexts
  obtain ⟨hcall, -⟩ := List.forall₂_cons.mp htexts
  obtain ⟨⟨layer, hlayer, heffects, -⟩, -⟩ := hcall m rfl
  refine ⟨m, p, hrun, helements, ?_⟩
  rw [helements] at heffects
  obtain ⟨e, he, -, heffect⟩ := heffects.exists_of_mem_right (List.mem_singleton_self p)
  obtain rfl : layer = markedHole := List.mem_singleton.mp (List.mem_of_find?_eq_some hlayer)
  obtain ⟨drawn, hdrawn, hturned⟩ := exists_drawn_of_mem_route he
  obtain rfl : drawn = ⟨.drill .origin true, none, ∅⟩ :=
    List.mem_singleton.mp (List.mem_filter.mp hdrawn).1
  obtain rfl : e = ⟨.drill .origin true, none, ∅⟩ := hturned.elim id id
  refine heffect.level .drill .bottom _ (by decide) trivial (levelValue_markedHole _) rfl ?_
  intro later hlater happlies
  cases later with
  | sweep | backSweep | subPath | zProbe => exact happlies.elim
  | _ => exact absurd hlater (by decide)

/-- Whether the own texts of an element leave the depth open, and whether its settings do. -/
def openDepth (p : Placed Float (Model Float)) : Bool × Bool :=
  ((ownValue pathLevelHole ∅ p.element .bottom).isNone, (p.settings.get? .bottom).isNone)

/-- A depth for the level of paths is read and nothing is wrong with it, no other text sets the
depth, and the hole has none. -/
theorem path_level_ignored : ∃ m p,
    (drilledRun pathLevelHole).1 = [some m] ∧ (drilledRun pathLevelHole).2.problems = [] ∧
      m.elements = [p] ∧ Level.path.AppliesTo p.element ∧
      levelValue pathLevelHole ∅ .path .bottom = some (-1.0) ∧
      ownValue pathLevelHole ∅ p.element .bottom = none ∧
      (∀ later : Level, Level.path.rank < later.rank →
        levelValue pathLevelHole ∅ later .bottom = none) ∧
      p.settings.get? .bottom = none := by
  have run : (drilledRun pathLevelHole).1.map (fun outcome => outcome.map fun m =>
      m.elements.map openDepth) = [some [(true, true)]] := by
    decide +kernel
  have silent : (drilledRun pathLevelHole).2.problems.isEmpty = true := by decide +kernel
  obtain ⟨outcome, hrun, houtcome⟩ := List.map_eq_singleton_iff.mp run
  obtain ⟨m, rfl, hm⟩ := Option.map_eq_some_iff.mp houtcome
  obtain ⟨p, helements, hopen⟩ := List.map_eq_singleton_iff.mp hm
  obtain ⟨hown, hdepth⟩ := Prod.mk.inj hopen
  refine ⟨m, p, hrun, List.isEmpty_iff.mp silent, helements, trivial, by decide +kernel,
    Option.isNone_iff_eq_none.mp hown, fun later hlater => ?_, Option.isNone_iff_eq_none.mp hdepth⟩
  cases later with
  | path => exact absurd hlater (by decide)
  | _ => rfl

end Drilled

end Build

end Toolpath
