import Toolpath.Proofs.Builder.Acyclic
import Toolpath.Proofs.Builder.Library
import Toolpath.Proofs.Builder.Settings

/-!
What the models of a library consist of. The elements of a model are those of the route through its
layer, resolved. The models placed in it, at any depth, are models of paths to which its path leads,
and for each such path there is one among them.
-/

set_option autoImplicit false

namespace Toolpath.Build

open Relation (ReflTransGen)

variable {α : Type} [Scalar α] {lib : Library α} {key : ModelKey} {m : Model α}

theorem exists_layer_of_expand_succ {n : Nat} (h : expand lib (n + 1) key = some m) :
    ∃ layer start stop, lib.get? key.name = some layer ∧ m.name = layer.name ∧
      m.settings = (scopeOf lib.defaults layer key.bindings).1.base ∧
      ∀ p ∈ m.elements, ∃ e ∈ (routeOf layer start stop).elements,
        resolved (scopeOf lib.defaults layer key.bindings).1 e
            ((request? (scopeOf lib.defaults layer key.bindings).1 e).bind (expand lib n)) =
          some p := by
  obtain ⟨layer, hlayer, h⟩ := Option.bind_eq_some_iff.mp h
  simp only [expandLayer, Option.bind_eq_bind, Option.bind_eq_some_iff] at h
  obtain ⟨start, -, stop, -, h⟩ := h
  obtain ⟨-, -, -, rfl⟩ := modelOf_eq_some_iff.mp h
  refine ⟨layer, start, stop, hlayer, rfl, rfl, fun p hp => ?_⟩
  obtain ⟨_, hmem, rfl⟩ := List.mem_filterMap.mp hp
  exact List.mem_map.mp hmem

theorem exists_layer_of_expand {n : Nat} (h : expand lib n key = some m) :
    ∃ layer, lib.get? key.name = some layer ∧ m.name = layer.name := by
  cases n with
  | zero => cases h
  | succ n =>
    obtain ⟨layer, -, -, hlayer, hname, -⟩ := exists_layer_of_expand_succ h
    exact ⟨layer, hlayer, hname⟩

theorem HasModel.name_beq (h : HasModel lib key m) : (m.name == key.name) = true := by
  obtain ⟨n, hn⟩ := h
  obtain ⟨layer, hlayer, hname⟩ := exists_layer_of_expand hn
  rw [hname]
  exact Library.name_of_get? hlayer

theorem references_of_placed {n : Nat} (h : expand lib (n + 1) key = some m)
    {p : Placed α (Model α)} (element : p ∈ m.elements) {sub : Model α} {t : Placement α}
    (places : p.sub = some (sub, t)) :
    ∃ k : ModelKey, References lib key.name k.name ∧ expand lib n k = some sub := by
  obtain ⟨layer, start, stop, hlayer, -, -, hroute⟩ := exists_layer_of_expand_succ h
  obtain ⟨e, he, hresolved⟩ := hroute p element
  unfold resolved at hresolved
  dsimp only at hresolved
  split at hresolved
  · next first last target hkind =>
    obtain ⟨child, hchild, hfits⟩ := Option.bind_eq_some_iff.mp hresolved
    obtain ⟨t', -, hp⟩ := Option.map_eq_some_iff.mp hfits
    obtain ⟨k, hasks, hexpand⟩ := Option.bind_eq_some_iff.mp hchild
    simp only [request?, hkind, Option.map_eq_some_iff] at hasks
    obtain ⟨child', -, rfl⟩ := hasks
    have hstep := references_of_mem_route he target ⟨first, last, hkind⟩
    rw [← hp] at places
    obtain ⟨rfl, -⟩ := Prod.mk.inj (Option.some.inj places)
    exact ⟨_, ⟨layer, hlayer, hstep⟩, hexpand⟩
  · obtain rfl := Option.some.inj hresolved
    cases places

theorem HasModel.of_within (h : HasModel lib key m) {inner : Model α} (within : inner.Within m) :
    ∃ k : ModelKey, ReflTransGen (References lib) key.name k.name ∧ HasModel lib k inner := by
  induction within generalizing key with
  | self => exact ⟨key, .refl, h⟩
  | placed element places _ ih =>
    obtain ⟨n, hn⟩ := h
    cases n with
    | zero => cases hn
    | succ n =>
      obtain ⟨k, hstep, hsub⟩ := references_of_placed hn element places
      obtain ⟨k', hreach, hinner⟩ := ih ⟨n, hsub⟩
      exact ⟨k', .head hstep hreach, hinner⟩

theorem HasModel.exists_within (h : HasModel lib key m) {name : PathName}
    (reach : ReflTransGen (References lib) key.name name) :
    ∃ k inner, k.name = name ∧ HasModel lib k inner ∧ inner.Within m := by
  obtain ⟨n, hn⟩ := h
  induction n using Nat.strong_induction_on generalizing key m with
  | _ n ih =>
    rcases ReflTransGen.cases_head reach with rfl | ⟨next, hstep, hrest⟩
    · exact ⟨key, m, rfl, ⟨n, hn⟩, .self m⟩
    · obtain ⟨i, hi, p, hp, -, placed, child, t, hplaces, rfl, hchild⟩ :=
        placed_of_references hn hstep
      obtain ⟨k, inner, hk, hinner, hwithin⟩ := ih i hi hrest hchild
      exact ⟨k, inner, hk, hinner, .placed hp hplaces hwithin⟩

end Toolpath.Build
