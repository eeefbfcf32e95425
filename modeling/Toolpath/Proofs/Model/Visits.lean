import Mathlib.Data.List.Perm.Basic
import Toolpath.Proofs.Model.Tasks

/-!
The paths that a program visits. Each place of a path in another one is a visit of its own, with the
setup under which its elements are emitted. The tasks of a program are the elements of all its
visits, each under the setup of its visit and each done once.
-/

set_option autoImplicit false

namespace Toolpath.Model

variable {α : Type}

/-- An element as it is emitted: the setup, what the element is, and its settings. -/
structure Work (α : Type) where
  setup : Setup α
  kind : ElementKind α
  settings : Settings α

def Task.work : Task α → List (Work α)
  | .comment _ _ => []
  | .single setup element settings => [⟨setup, element.kind, settings⟩]
  | .chain setup cuts => cuts.map fun cut => ⟨setup, .cut cut.shape cut.mark, cut.settings⟩

/-- What is emitted for an element itself. For a placed path that is nothing: its elements are
emitted instead. -/
def elementWork (setup : Setup α) (p : Placed α (Model α)) : List (Work α) :=
  match p.element.kind with
  | .subPath .. => []
  | kind => [⟨setup, kind, p.settings⟩]

private theorem elementWork_of_placed (setup : Setup α) {p : Placed α (Model α)}
    {start stop : Point α} {target : PathName} (h : p.element.kind = .subPath start stop target) :
    elementWork setup p = [] := by
  rw [elementWork, h]

private theorem elementWork_of_not_placed (setup : Setup α) {p : Placed α (Model α)}
    (h : ∀ start stop target, p.element.kind ≠ .subPath start stop target) :
    elementWork setup p = [⟨setup, p.element.kind, p.settings⟩] := by
  unfold elementWork
  split
  · next hkind => exact absurd hkind (h _ _ _)
  · rfl

/-- What is emitted for the elements on the route of a visited path. -/
def visitWork (visit : Setup α × Model α) : List (Work α) :=
  visit.2.elements.flatMap (elementWork visit.1)

variable [Scalar α]

mutual

/-- The visits of a path: those of the paths placed in it, in the order of its route, and its own.
-/
def visits (setup : Setup α) : Model α → List (Setup α × Model α)
  | ⟨name, settings, start, stop, elements, probes⟩ =>
    placedVisits setup elements ++ [(setup, ⟨name, settings, start, stop, elements, probes⟩)]

def placedVisits (setup : Setup α) : List (Placed α (Model α)) → List (Setup α × Model α)
  | [] => []
  | ⟨⟨.subPath _ _ _, _, _⟩, _, some (model, placement)⟩ :: rest =>
    visits (setup.nested placement) model ++ placedVisits setup rest
  | _ :: rest => placedVisits setup rest

end

theorem visits_eq (setup : Setup α) (m : Model α) :
    m.visits setup = placedVisits setup m.elements ++ [(setup, m)] := by
  cases m
  rw [visits]

theorem placedVisits_placed (setup : Setup α) {element : Element α} {settings : Settings α}
    {start stop : Point α} {target : PathName} (h : element.kind = .subPath start stop target)
    (model : Model α) (placement : Placement α) (rest : List (Placed α (Model α))) :
    placedVisits setup (⟨element, settings, some (model, placement)⟩ :: rest) =
      model.visits (setup.nested placement) ++ placedVisits setup rest := by
  obtain ⟨kind, order, params⟩ := element
  obtain rfl : kind = .subPath start stop target := h
  rw [placedVisits]

theorem placedVisits_of_not_placed (setup : Setup α) {p : Placed α (Model α)}
    (h : ∀ start stop target, p.element.kind ≠ .subPath start stop target)
    (rest : List (Placed α (Model α))) :
    placedVisits setup (p :: rest) = placedVisits setup rest := by
  rw [placedVisits]
  rintro start stop target order params settings model placement rfl
  exact h start stop target rfl

mutual

theorem probes_of_mem_visits : (m : Model α) → {setup : Setup α} →
    ∀ visit ∈ m.visits setup, visit.1.probes = setup.probes
  | ⟨name, settings, start, stop, elements, probes⟩, setup, visit, h => by
    rw [visits, List.mem_append, List.mem_singleton] at h
    rcases h with hplaced | rfl
    · exact probes_of_mem_placedVisits elements visit hplaced
    · rfl

private theorem probes_of_mem_placedVisits :
    (elements : List (Placed α (Model α))) → {setup : Setup α} →
    ∀ visit ∈ placedVisits setup elements, visit.1.probes = setup.probes
  | [], _, _, h => by
    rw [placedVisits] at h
    cases h
  | ⟨element, settings, none⟩ :: rest, setup, visit, h => by
    rw [placedVisits] at h
    · exact probes_of_mem_placedVisits rest visit h
    · simp
  | ⟨element, settings, some (model, placement)⟩ :: rest, setup, visit, h => by
    by_cases hplaces : ∃ start stop target, element.kind = .subPath start stop target
    · obtain ⟨start, stop, target, hkind⟩ := hplaces
      rw [placedVisits_placed setup hkind] at h
      rcases List.mem_append.mp h with hinner | hrest
      · have hnested : visit.1.probes = (setup.nested placement).probes :=
          probes_of_mem_visits model visit hinner
        exact hnested
      · exact probes_of_mem_placedVisits rest visit hrest
    · rw [placedVisits_of_not_placed setup fun start stop target hkind =>
        hplaces ⟨start, stop, target, hkind⟩] at h
      exact probes_of_mem_placedVisits rest visit h

end

mutual

/-- The tasks of a path are done for the elements of its visits. -/
theorem work_tasks_perm : (m : Model α) → {setup : Setup α} → {ts : List (Task α)} →
    tasks setup m = .ok ts → (ts.flatMap Task.work).Perm ((m.visits setup).flatMap visitWork)
  | ⟨name, settings, start, stop, elements, probes⟩, setup, ts, h => by
    have hperm := work_elementTasks_perm elements h
    rw [visits, List.flatMap_append, List.flatMap_singleton]
    exact hperm.trans List.perm_append_comm

private theorem work_elementTasks_perm :
    (elements : List (Placed α (Model α))) → {setup : Setup α} →
    {chain : OpenChain α} → {ts : List (Task α)} → elementTasks setup chain elements = .ok ts →
    (ts.flatMap Task.work).Perm
      ((closing setup chain).flatMap Task.work ++ elements.flatMap (elementWork setup) ++
        (placedVisits setup elements).flatMap visitWork)
  | [], setup, chain, ts, h => by
    rw [elementTasks] at h
    obtain rfl := Except.ok.inj h
    rw [placedVisits]
    simp
  | ⟨element, settings, sub⟩ :: rest, setup, chain, ts, h => by
    rw [elementTasks] at h
    split at h
    · next shape mark hkind =>
      obtain ⟨key, -, h⟩ := bind_eq_ok.mp h
      have hnot : ∀ start stop target, element.kind ≠ .subPath start stop target := by simp [hkind]
      rw [placedVisits_of_not_placed setup hnot, List.flatMap_cons,
        elementWork_of_not_placed setup hnot, hkind]
      cases chain with
      | none => exact work_elementTasks_perm rest h
      | some shared =>
        obtain ⟨shared, cuts⟩ := shared
        dsimp only at h
        split at h
        -- The cut goes on with the chain, so its work is counted with that of the chain.
        · have hrest := work_elementTasks_perm rest h
          simpa [closing, Task.work] using hrest
        · obtain ⟨later, hlater, h⟩ := bind_eq_ok.mp h
          obtain rfl := Except.ok.inj h
          have hrest := work_elementTasks_perm rest hlater
          rw [List.flatMap_append]
          simpa [closing, Task.work] using hrest.append_left _
    · next start stop target hkind =>
      cases sub with
      | none => cases h
      | some placed =>
        obtain ⟨model, placement⟩ := placed
        obtain ⟨inner, hinner, h⟩ := bind_eq_ok.mp h
        obtain ⟨later, hlater, h⟩ := bind_eq_ok.mp h
        obtain rfl := Except.ok.inj h
        have hmodel := work_tasks_perm model hinner
        have hrest : (later.flatMap Task.work).Perm (rest.flatMap (elementWork setup) ++
            (placedVisits setup rest).flatMap visitWork) := work_elementTasks_perm rest hlater
        rw [placedVisits_placed setup hkind, List.flatMap_cons, elementWork_of_placed setup hkind,
          List.nil_append, List.flatMap_append, List.flatMap_append, List.flatMap_cons,
          List.flatMap_append, List.append_assoc]
        refine List.Perm.append_left _ ?_
        show ([] ++ (inner.flatMap Task.work ++ later.flatMap Task.work)).Perm _
        rw [List.nil_append]
        exact (hmodel.append hrest).trans (List.perm_append_comm_assoc _ _ _)
    · next hcut hsub =>
      obtain ⟨later, hlater, h⟩ := bind_eq_ok.mp h
      obtain rfl := Except.ok.inj h
      have hrest := work_elementTasks_perm rest hlater
      rw [placedVisits_of_not_placed setup hsub, List.flatMap_cons,
        elementWork_of_not_placed setup hsub, List.flatMap_append, List.append_assoc]
      refine List.Perm.append_left _ ?_
      exact hrest.cons _

end

end Toolpath.Model
