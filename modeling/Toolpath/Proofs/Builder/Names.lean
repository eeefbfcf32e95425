import Toolpath.Proofs.Builder.Contents
import Toolpath.Proofs.Builder.Memo

/-!
The names of models. A model has the name of the layer that it is expanded from; so the models
placed in it, at any depth, have the names of the layers to which its path leads.
-/

set_option autoImplicit false

namespace Toolpath.Build

open Library (Distinct)
open Relation (ReflTransGen)

variable {α : Type}

/-- The layer of a path or of one that is placed in it, at any depth. -/
def Includes (lib : Library α) (path : PathName) (layer : Layer α) : Prop :=
  ∃ placed, ReflTransGen (References lib) path placed ∧ lib.get? placed = some layer

theorem Includes.mem_layers {lib : Library α} {path : PathName} {layer : Layer α}
    (h : Includes lib path layer) : layer ∈ lib.layers := by
  obtain ⟨_, -, hlayer⟩ := h
  exact Library.mem_of_get? hlayer

variable [Scalar α] {lib : Library α} {key : ModelKey} {m : Model α}

theorem HasModel.exists_layer_of_within (h : HasModel lib key m) {inner : Model α}
    (within : inner.Within m) : ∃ layer, Includes lib key.name layer ∧ inner.name = layer.name := by
  obtain ⟨k, hreach, n, hn⟩ := h.of_within within
  obtain ⟨layer, hlayer, hname⟩ := exists_layer_of_expand hn
  exact ⟨layer, ⟨k.name, hreach, hlayer⟩, hname⟩

theorem run_roots_of_ne_nil (h : lib.roots ≠ []) :
    (roots lib).run initial =
      Prod.map (List.filterMap id) id
        ((builds lib (lib.roots.map fun name => (name, ∅))).run initial) := by
  have hbuilds : builds lib (lib.roots.map fun name => (name, ∅)) =
      lib.roots.mapM fun name => build lib name ∅ := List.mapM_map ..
  have hsome : lib.roots.isEmpty = false := by simpa using h
  unfold roots
  rw [hbuilds, hsome]
  rfl

theorem run_roots (lib : Library α) :
    ((roots lib).run initial).1 =
      ((builds lib (lib.roots.map fun name => (name, ∅))).run initial).1.filterMap id := by
  by_cases hroots : lib.roots = []
  · unfold roots
    rw [hroots]
    split
    · rfl
    · rfl
  · rw [run_roots_of_ne_nil hroots]
    rfl

theorem builds_find (lib : Library α) (calls : List (PathName × Bindings)) :
    List.Forall₂ (fun call outcome => Finds lib ⟨call.1, call.2⟩ outcome) calls
      ((builds lib calls).run initial).1 :=
  (((answering_finds lib).builds calls).resolve_left id).2

theorem exists_hasModel_of_mem_builds {calls : List (PathName × Bindings)}
    (h : some m ∈ ((builds lib calls).run initial).1) :
    ∃ call ∈ calls, HasModel lib ⟨call.1, call.2⟩ m := by
  obtain ⟨call, hcall, hfinds⟩ := (builds_find lib calls).exists_of_mem_right h
  exact ⟨call, hcall, hfinds m rfl⟩

theorem exists_hasModel_of_mem_roots (h : m ∈ ((roots lib).run initial).1) :
    ∃ name ∈ lib.roots, HasModel lib ⟨name, ∅⟩ m := by
  rw [run_roots] at h
  obtain ⟨_, hfound, rfl⟩ := List.mem_filterMap.mp h
  obtain ⟨call, hcall, hmodel⟩ := exists_hasModel_of_mem_builds hfound
  obtain ⟨name, hname, rfl⟩ := List.mem_map.mp hcall
  exact ⟨name, hname, hmodel⟩

theorem hasModel_of_mem_roots (h : m ∈ ((roots lib).run initial).1) :
    ∃ bindings, HasModel lib ⟨m.name, bindings⟩ m := by
  obtain ⟨name, -, hmodel⟩ := exists_hasModel_of_mem_roots h
  have hkeys : (⟨name, ∅⟩ : ModelKey).same ⟨m.name, ∅⟩ = true := by
    simp [ModelKey.same, BEq.symm hmodel.name_beq]
  exact ⟨∅, (hasModel_congr hkeys m).mp hmodel⟩

private theorem HasModel.name_eq (distinct : Distinct lib.layers) {name : PathName}
    {bindings : Bindings}
    {m : Model α} (hname : name ∈ lib.names) (h : HasModel lib ⟨name, bindings⟩ m) :
    m.name = name := by
  obtain ⟨layer, hlayer, rfl⟩ := List.mem_map.mp hname
  obtain ⟨n, hn⟩ := h
  obtain ⟨found, hfound, hnamed⟩ := exists_layer_of_expand hn
  rw [Library.get?_eq_some_of_mem distinct hlayer BEq.rfl] at hfound
  rw [hnamed, Option.some.inj hfound]

private theorem names_sublist_of_finds (distinct : Distinct lib.layers) {names : List PathName}
    (hnames : ∀ name ∈ names, name ∈ lib.names) {outcomes : List (Option (Model α))}
    (finds : List.Forall₂ (fun call outcome => Finds lib ⟨call.1, call.2⟩ outcome)
      (names.map fun name => (name, (∅ : Bindings))) outcomes) :
    ((outcomes.filterMap id).map Model.name).Sublist names := by
  induction names generalizing outcomes with
  | nil =>
    cases finds
    exact .slnil
  | cons name names ih =>
    rw [List.map_cons] at finds
    cases finds with
    | @cons _ outcome _ outcomes hfirst hrest =>
      have hlater := ih (fun next hnext => hnames next (List.mem_cons_of_mem name hnext)) hrest
      cases outcome with
      | none => exact hlater.cons name
      | some m =>
        rw [← (hfirst m rfl).name_eq distinct (hnames name List.mem_cons_self)]
        exact hlater.cons_cons m.name

/-- The models of the paths that no path places have the names of these paths, in their order. -/
theorem names_sublist_roots (distinct : Distinct lib.layers) :
    (((roots lib).run initial).1.map Model.name).Sublist lib.roots := by
  rw [run_roots]
  exact names_sublist_of_finds distinct
    (fun name hname => ((Library.mem_roots_iff name).mp hname).1) (builds_find lib _)

end Toolpath.Build
