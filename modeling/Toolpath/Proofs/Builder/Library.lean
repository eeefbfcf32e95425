import Mathlib.Data.Fintype.Card
import Mathlib.Data.List.Pairwise
import Mathlib.Data.Set.Finite.Basic
import Mathlib.Logic.Relation
import Mathlib.Order.WellFounded
import Toolpath.Layer
import Toolpath.Proofs.PathName.Identity

/-!
The layers of a library and which of them place which. A library has each name once, so a name on a
layer stands for one layer. Going from a layer to one that places it either ends, in a path that no
path places, or comes back to a layer.
-/

set_option autoImplicit false

namespace Toolpath.Library

open Relation (ReflTransGen TransGen)

variable {α : Type}

def Distinct (layers : List (Layer α)) : Prop :=
  layers.Pairwise fun a b => (a.name == b.name) = false

private theorem distinct_symm {a b : Layer α} (h : (a.name == b.name) = false) :
    (b.name == a.name) = false := by
  rw [BEq.comm]
  exact h

private theorem insertLayer_perm {l : Layer α} {layers : List (Layer α)}
    (free : ∀ other ∈ layers, (l.name == other.name) = false) :
    (insertLayer l layers).Perm (l :: layers) := by
  induction layers with
  | nil => exact .refl _
  | cons other rest ih =>
    unfold insertLayer
    split
    · exact .refl _
    · next heq =>
      have hsame : (l.name == other.name) = true := by
        change (l.name.compare other.name == .eq) = true
        rw [heq, beq_self_eq_true]
      rw [free other (by simp)] at hsame
      cases hsame
    · have hrest := ih fun next hnext => free next (List.mem_cons_of_mem other hnext)
      exact (hrest.cons other).trans (.swap l other rest)

private theorem distinct_add {lib : Library α} (h : Distinct lib.layers) (l : Layer α) :
    Distinct (lib.add l).1.layers := by
  unfold add
  split
  · exact h
  · next hfree =>
    have free : ∀ other ∈ lib.layers, (l.name == other.name) = false := by
      intro other hother
      simpa using distinct_symm (by simpa using List.find?_eq_none.mp hfree other hother)
    refine ((insertLayer_perm free).pairwise_iff distinct_symm).mpr ?_
    exact List.pairwise_cons.mpr ⟨free, h⟩

private theorem distinct_addAll {lib : Library α} (h : Distinct lib.layers)
    (layers : List (Layer α)) :
    Distinct (lib.addAll layers).1.layers := by
  induction layers generalizing lib with
  | nil => exact h
  | cons l layers ih => exact ih (distinct_add h l)

theorem distinct_ofLayers [Scalar α] (defaults : Defaults α) (layers : List (Layer α)) :
    Distinct (ofLayers defaults layers).1.layers := by
  have hempty : Distinct (⟨[], defaults⟩ : Library α).layers := .nil
  exact distinct_addAll hempty layers

theorem mem_of_get? {lib : Library α} {name : PathName} {l : Layer α}
    (h : lib.get? name = some l) : l ∈ lib.layers :=
  List.mem_of_find?_eq_some h

theorem name_of_get? {lib : Library α} {name : PathName} {l : Layer α}
    (h : lib.get? name = some l) : (l.name == name) = true :=
  List.find?_some (p := fun l : Layer α => l.name == name) h

theorem get?_eq_some_of_mem {lib : Library α} (h : Distinct lib.layers) {l : Layer α}
    (hl : l ∈ lib.layers) {name : PathName} (same : (l.name == name) = true) :
    lib.get? name = some l := by
  obtain ⟨found, hfound⟩ := Option.isSome_iff_exists.mp
    (List.find?_isSome.mpr ⟨l, hl, same⟩ : (lib.get? name).isSome = true)
  by_contra hne
  have hsymm : Std.Symm fun a b : Layer α => (a.name == b.name) = false :=
    ⟨fun _ _ => distinct_symm⟩
  have hapart := h.forall (mem_of_get? hfound) hl fun heq => hne (heq ▸ hfound)
  rw [BEq.trans (name_of_get? hfound) (BEq.symm same)] at hapart
  cases hapart

/-- A layer of the library is drawn on another one. -/
def Places (lib : Library α) (a b : Layer α) : Prop :=
  ∃ name ∈ a.references, lib.get? name = some b

theorem mem_roots_iff {lib : Library α} (name : PathName) :
    name ∈ lib.roots ↔ name ∈ lib.names ∧
      ∀ l ∈ lib.layers, ∀ other ∈ l.references, (other == name) = false := by
  simp [roots, List.mem_filter]

private theorem mem_roots_or_placed {lib : Library α} (h : Distinct lib.layers) {layer : Layer α}
    (hlayer : layer ∈ lib.layers) :
    layer.name ∈ lib.roots ∨ ∃ other ∈ lib.layers, Places lib other layer := by
  by_cases hplaced : ∃ other ∈ lib.layers, ∃ name ∈ other.references, (name == layer.name) = true
  · obtain ⟨other, hother, name, hname, hsame⟩ := hplaced
    exact Or.inr ⟨other, hother, name, hname, get?_eq_some_of_mem h hlayer (BEq.symm hsame)⟩
  · refine Or.inl ((mem_roots_iff layer.name).mpr ⟨List.mem_map_of_mem hlayer, ?_⟩)
    intro other hother name hname
    rw [Bool.eq_false_iff]
    exact fun hsame => hplaced ⟨other, hother, name, hname, hsame⟩

def Above (lib : Library α) (layer : Layer α) : Type :=
  {l // l ∈ lib.layers ∧ ReflTransGen (Places lib) l layer}

instance (lib : Library α) (layer : Layer α) : Finite (Above lib layer) :=
  (lib.layers.finite_toSet.subset fun _ hl => hl.1).to_subtype

private theorem wellFounded_above {lib : Library α} {layer : Layer α}
    (acyclic : ∀ turn : Above lib layer, ¬ TransGen (Places lib) turn.1 turn.1) :
    WellFounded fun a b : Above lib layer => TransGen (Places lib) a.1 b.1 := by
  have htrans : IsTrans (Above lib layer) fun a b => TransGen (Places lib) a.1 b.1 :=
    ⟨fun _ _ _ hab hbc => hab.trans hbc⟩
  have hirrefl : Std.Irrefl fun a b : Above lib layer => TransGen (Places lib) a.1 b.1 := ⟨acyclic⟩
  exact Finite.wellFounded_of_trans_of_irrefl _

/-- A path that no path places leads to a layer, or layers lead to it that place each other. -/
theorem exists_root_or_cycle {lib : Library α} (h : Distinct lib.layers) {layer : Layer α}
    (hlayer : layer ∈ lib.layers) :
    (∃ root ∈ lib.layers, root.name ∈ lib.roots ∧ ReflTransGen (Places lib) root layer) ∨
      ∃ turn, TransGen (Places lib) turn turn ∧ ReflTransGen (Places lib) turn layer := by
  by_cases hcycle : ∃ turn, TransGen (Places lib) turn turn ∧ ReflTransGen (Places lib) turn layer
  · exact Or.inr hcycle
  · have hwf := wellFounded_above fun turn hturn => hcycle ⟨turn.1, hturn, turn.2.2⟩
    obtain ⟨⟨first, hfirst, hreach⟩, -, hleast⟩ :=
      hwf.has_min Set.univ ⟨⟨layer, hlayer, .refl⟩, trivial⟩
    refine Or.inl ⟨first, hfirst, ?_, hreach⟩
    refine (mem_roots_or_placed h hfirst).resolve_right ?_
    rintro ⟨other, hother, hplaces⟩
    exact hleast ⟨other, hother, .head hplaces hreach⟩ trivial (.single hplaces)

end Toolpath.Library
