import Toolpath.Proofs.Builder.Failures
import Toolpath.Proofs.Builder.Library
import Toolpath.Proofs.Builder.Names

/-!
Which layers of a library get into the models of the paths that no path places. If no error was
reported, each of these paths has its model, and what it leads to is placed there. A layer that none
of them leads to is built for no model, so nothing is said of it; then layers lead to it that place
each other.
-/

set_option autoImplicit false

namespace Toolpath.Build

open Relation (ReflTransGen TransGen)
open Library (Places Distinct)

variable {α : Type}

private theorem includes_iff {lib : Library α} {path : PathName} {first layer : Layer α}
    (hfirst : lib.get? path = some first) :
    Includes lib path layer ↔ ReflTransGen (Places lib) first layer := by
  constructor
  · rintro ⟨placed, hreach, hlayer⟩
    induction hreach generalizing layer with
    | refl =>
      obtain rfl := Option.some.inj (hfirst.symm.trans hlayer)
      exact .refl
    | tail _ step ih =>
      obtain ⟨around, haround, hdrawn⟩ := step
      exact (ih haround).tail ⟨_, hdrawn, hlayer⟩
  · intro h
    induction h with
    | refl => exact ⟨path, .refl, hfirst⟩
    | tail _ step ih =>
      obtain ⟨name, hdrawn, hlayer⟩ := step
      obtain ⟨placed, hreach, haround⟩ := ih
      exact ⟨name, hreach.tail ⟨_, haround, hdrawn⟩, hlayer⟩

variable [Scalar α]

/-- The model of a layer is one of some models or is placed in one, at any depth. -/
def Occurs (lib : Library α) (models : List (Model α)) (layer : Layer α) : Prop :=
  ∃ m ∈ models, ∃ inner, Model.Within inner m ∧
    ∃ bindings, HasModel lib ⟨layer.name, bindings⟩ inner

variable {lib : Library α}

private theorem Occurs.exists_name {models : List (Model α)} {layer : Layer α}
    (h : Occurs lib models layer) :
    ∃ m ∈ models, ∃ inner, Model.Within inner m ∧ (inner.name == layer.name) = true := by
  obtain ⟨m, hm, inner, hwithin, bindings, hinner⟩ := h
  exact ⟨m, hm, inner, hwithin, hinner.name_beq⟩

private theorem exists_model_of_mem_roots (clean : ¬ HasError ((roots lib).run initial).2)
    {name : PathName} (hname : name ∈ lib.roots) :
    ∃ m ∈ ((roots lib).run initial).1, HasModel lib ⟨name, ∅⟩ m := by
  rw [run_roots_of_ne_nil (List.ne_nil_of_mem hname)] at clean ⊢
  obtain ⟨-, hmodels⟩ := (builds_keep_faultless lib _).resolve_left clean
  obtain ⟨outcome, houtcome, hfinds⟩ :=
    (builds_find lib _).exists_of_mem_left (List.mem_map_of_mem hname)
  obtain ⟨m, rfl⟩ := Option.ne_none_iff_exists'.mp (hmodels outcome houtcome)
  exact ⟨m, List.mem_filterMap.mpr ⟨_, houtcome, rfl⟩, hfinds m rfl⟩

private theorem HasModel.occurs_iff (distinct : Distinct lib.layers) {path : PathName}
    {first layer : Layer α} {bindings : Bindings} {m : Model α}
    (h : HasModel lib ⟨path, bindings⟩ m)
    (hfirst : lib.get? path = some first) (hlayer : layer ∈ lib.layers) :
    (∃ inner, Model.Within inner m ∧ ∃ bindings, HasModel lib ⟨layer.name, bindings⟩ inner) ↔
      ReflTransGen (Places lib) first layer := by
  have hname : lib.get? layer.name = some layer :=
    Library.get?_eq_some_of_mem distinct hlayer BEq.rfl
  rw [← includes_iff hfirst]
  constructor
  · rintro ⟨inner, hwithin, other, hinner⟩
    obtain ⟨k, hreach, n, hk⟩ := h.of_within hwithin
    -- The model of the layer and the one on the way to it are one, so are their layers.
    obtain ⟨found, hfound, hnamed⟩ := exists_layer_of_expand hk
    have hsame : (found.name == layer.name) = true := hnamed ▸ hinner.name_beq
    have hagain := Library.get?_eq_some_of_mem distinct (Library.mem_of_get? hfound) hsame
    obtain rfl := Option.some.inj (hname.symm.trans hagain)
    exact ⟨k.name, hreach, hfound⟩
  · rintro ⟨placed, hreach, hplaced⟩
    obtain ⟨k, inner, rfl, hinner, hwithin⟩ := h.exists_within hreach
    have hkeys : k.same ⟨layer.name, k.bindings⟩ = true := by
      simp [ModelKey.same, BEq.symm (Library.name_of_get? hplaced)]
    exact ⟨inner, hwithin, k.bindings, (hasModel_congr hkeys inner).mp hinner⟩

/-- If no error is reported while the paths are built that no path places, then a layer has its
model among their models, at any depth, exactly if one of them leads to it. So a layer that is left
out without an error is one to which layers lead that place each other. -/
theorem occurs_iff_root_leads (defaults : Defaults α) (layers : List (Layer α)) :
    let lib := (Library.ofLayers defaults layers).1
    let after := (roots lib).run initial
    (∀ d ∈ after.2.problems, d.severity ≠ .error) →
      ∀ layer ∈ lib.layers,
        (Occurs lib after.1 layer ↔
          ∃ root ∈ lib.layers, root.name ∈ lib.roots ∧ ReflTransGen (Places lib) root layer) ∧
        (¬ Occurs lib after.1 layer →
          ∃ turn, TransGen (Places lib) turn turn ∧ ReflTransGen (Places lib) turn layer) := by
  intro lib after clean layer hlayer
  have distinct : Distinct lib.layers := Library.distinct_ofLayers defaults layers
  have hfirst : ∀ root ∈ lib.layers, lib.get? root.name = some root :=
    fun root hroot => Library.get?_eq_some_of_mem distinct hroot BEq.rfl
  have hclean : ¬ HasError after.2 := fun ⟨d, hd, herror⟩ => clean d hd herror
  have hoccurs : Occurs lib after.1 layer ↔
      ∃ root ∈ lib.layers, root.name ∈ lib.roots ∧ ReflTransGen (Places lib) root layer := by
    constructor
    · rintro ⟨m, hm, hinner⟩
      obtain ⟨name, hname, hmodel⟩ := exists_hasModel_of_mem_roots hm
      obtain ⟨root, hroot, rfl⟩ := List.mem_map.mp ((Library.mem_roots_iff name).mp hname).1
      exact ⟨root, hroot, hname, (hmodel.occurs_iff distinct (hfirst root hroot) hlayer).mp hinner⟩
    · rintro ⟨root, hroot, hname, hreach⟩
      obtain ⟨m, hm, hmodel⟩ := exists_model_of_mem_roots hclean hname
      exact ⟨m, hm, (hmodel.occurs_iff distinct (hfirst root hroot) hlayer).mpr hreach⟩
  refine ⟨hoccurs, fun hmissing => ?_⟩
  have habove := Library.exists_root_or_cycle distinct hlayer
  exact habove.resolve_left fun h => hmissing (hoccurs.mpr h)

section Islands

open Binary64

def islandLayer (name : String) (placed : List String) : Layer Float where
  name := .ofText name
  params := ∅
  levelParams _ := none
  anchors := [⟨.start, .origin⟩, ⟨.stop, .origin⟩]
  elements := placed.map fun other => ⟨.subPath .origin .origin (.ofText other), none, ∅⟩

def peninsula : List (Layer Float) :=
  [islandLayer "A" ["D"], islandLayer "B" ["C"], islandLayer "C" ["B"], islandLayer "D" []]

theorem occurs_iff_root_leads_peninsula :
    let lib := (Library.ofLayers .standard peninsula).1
    let after := (roots lib).run initial
    (∀ d ∈ after.2.problems, d.severity ≠ .error) ∧
      ∃ root ∈ lib.layers, ∃ placed ∈ lib.layers,
        (root.name == .ofText "A") = true ∧ (placed.name == .ofText "D") = true ∧
        Occurs lib after.1 root ∧ Occurs lib after.1 placed := by
  intro lib after
  have clean : ∀ d ∈ after.2.problems, d.severity ≠ .error := by decide +kernel
  have hroot : lib.roots.any (fun name => name == .ofText "A") = true := by decide +kernel
  have hplaced : ∀ layer ∈ lib.layers, (layer.name == .ofText "A") = true →
      layer.references.any (fun name => (lib.get? name).any fun placed =>
        placed.name == .ofText "D") = true := by decide +kernel
  obtain ⟨name, hname, hsame⟩ := List.any_eq_true.mp hroot
  obtain ⟨root, hroot, rfl⟩ := List.mem_map.mp ((Library.mem_roots_iff name).mp hname).1
  obtain ⟨name, hreference, hfound⟩ := List.any_eq_true.mp (hplaced root hroot hsame)
  obtain ⟨placed, hfound, hother⟩ := (Option.any_eq_true _ _).mp hfound
  have hmem := Library.mem_of_get? hfound
  have places : ReflTransGen (Places lib) root placed := .single ⟨name, hreference, hfound⟩
  have hoccurs := fun layer hlayer =>
    (occurs_iff_root_leads .standard peninsula clean layer hlayer).1
  exact ⟨clean, root, hroot, placed, hmem, hsame, hother,
    (hoccurs root hroot).mpr ⟨root, hroot, hname, .refl⟩,
    (hoccurs placed hmem).mpr ⟨root, hroot, hname, places⟩⟩

def islands : List (Layer Float) :=
  [islandLayer "A" [], islandLayer "B" ["C"], islandLayer "C" ["B"]]

/-- No error is found with the islands, and there is no model of the path `B`. -/
theorem not_occurs_in_islands :
    let (lib, problems) := Library.ofLayers .standard islands
    let after := (roots lib).run initial
    (∀ d ∈ problems ++ after.2.problems, d.severity ≠ .error) ∧
      ∃ layer ∈ lib.layers, (layer.name == .ofText "B") = true ∧ ¬ Occurs lib after.1 layer := by
  let lib := (Library.ofLayers .standard islands).1
  have hlayer : lib.layers.any (fun layer => layer.name == .ofText "B") = true := by decide +kernel
  have hmodels : ∀ m ∈ ((roots lib).run initial).1,
      m.elements.isEmpty = true ∧ (m.name == .ofText "B") = false := by decide +kernel
  obtain ⟨layer, hlayer, hname⟩ := List.any_eq_true.mp hlayer
  refine ⟨by decide +kernel, layer, hlayer, hname, fun hoccurs => ?_⟩
  obtain ⟨m, hm, inner, hwithin, hsame⟩ := hoccurs.exists_name
  obtain ⟨hempty, hother⟩ := hmodels m hm
  cases hwithin with
  | self =>
    rw [BEq.trans hsame hname] at hother
    cases hother
  | placed element =>
    rw [List.isEmpty_iff.mp hempty] at element
    cases element

end Islands

end Toolpath.Build
