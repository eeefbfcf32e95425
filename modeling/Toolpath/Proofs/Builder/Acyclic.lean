import Toolpath.Proofs.Builder.Answers
import Toolpath.Proofs.Builder.Expansion

/-!
A path with a model places no path inside itself. The route of a layer with a model is complete, so
every path that is drawn on the layer is placed, and has a model with one level less; going on from
path to path ends.
-/

set_option autoImplicit false

namespace Toolpath.Build

open Relation (ReflTransGen TransGen)

variable {α : Type} [Scalar α]

private theorem exists_placed_of_complete {layer : Layer α} {start stop : Point α}
    (complete : (routeOf layer start stop).complete = true) {drawn : Element α}
    (hdrawn : drawn ∈ layer.elements) (notProbe : drawn.isProbe = false) :
    ∃ placed ∈ (routeOf layer start stop).elements, Route.Turned drawn placed := by
  obtain ⟨used, hperm, hturned, -⟩ :=
    Route.walk_sound start (Nat.le_refl (Route.drawn layer.elements).length)
  rw [routeOf, Route.assemble_fst] at complete ⊢
  have hleft := List.isEmpty_iff.mp (Bool.and_eq_true_iff.mp complete).2
  rw [hleft, List.append_nil] at hperm
  have hmem : drawn ∈ Route.drawn layer.elements := by
    simp [Route.drawn, hdrawn, notProbe]
  exact hturned.exists_of_mem_left (hperm.mem_iff.mpr hmem)

private theorem placed_of_resolved {scope : Scope α} {e : Element α} {name : PathName}
    (htarget : Target e name) {answer : ModelKey → Option (Model α)} {p : Placed α (Model α)}
    (h : resolved scope e ((request? scope e).bind answer) = some p) :
    p.element = e ∧ ∃ key child t, p.sub = some (child, t) ∧ key.name = name ∧
      answer key = some child := by
  obtain ⟨start, stop, hkind⟩ := htarget
  simp only [resolved, hkind, Option.bind_eq_some_iff, Option.map_eq_some_iff] at h
  obtain ⟨child, ⟨key, hrequest, hanswer⟩, t, -, rfl⟩ := h
  simp only [request?, hkind, Option.map_eq_some_iff] at hrequest
  obtain ⟨bindings, -, rfl⟩ := hrequest
  exact ⟨rfl, _, child, t, rfl, rfl, hanswer⟩

private theorem placed_of_expandLayer {answer : ModelKey → Option (Model α)} {defaults : Defaults α}
    {layer : Layer α} {bindings : Bindings} {m : Model α}
    (h : expandLayer answer defaults layer bindings = some m) {name : PathName}
    (hname : name ∈ layer.references) :
    ∃ p ∈ m.elements, Target p.element name ∧ ∃ key child t, p.sub = some (child, t) ∧
      key.name = name ∧ answer key = some child := by
  simp only [expandLayer, Option.bind_eq_bind, Option.bind_eq_some_iff] at h
  obtain ⟨start, -, stop, -, h⟩ := h
  obtain ⟨hcomplete, hplaced, -, rfl⟩ := modelOf_eq_some_iff.mp h
  obtain ⟨drawn, hdrawn, htarget⟩ := (mem_references_iff layer name).mp hname
  have hprobe : drawn.isProbe = false := by
    obtain ⟨start, stop, hkind⟩ := htarget
    simp [Element.isProbe, hkind]
  obtain ⟨e, hroute, hturned⟩ := exists_placed_of_complete hcomplete hdrawn hprobe
  have hturnedTarget := (target_iff_of_turned hturned name).mpr htarget
  have hmem := List.mem_map_of_mem (f := fun e => resolved (scopeOf defaults layer bindings).1 e
    ((request? (scopeOf defaults layer bindings).1 e).bind answer)) hroute
  obtain ⟨p, hp⟩ := Option.isSome_iff_exists.mp (List.all_eq_true.mp hplaced _ hmem)
  obtain ⟨rfl, hchild⟩ := placed_of_resolved hturnedTarget hp
  exact ⟨p, List.mem_filterMap.mpr ⟨_, hmem, hp⟩, hturnedTarget, hchild⟩

theorem placed_of_references {lib : Library α} {n : Nat} {key : ModelKey} {m : Model α}
    (h : expand lib n key = some m) {name : PathName} (step : References lib key.name name) :
    ∃ k < n, ∃ p ∈ m.elements, Target p.element name ∧ ∃ placed child t,
      p.sub = some (child, t) ∧ placed.name = name ∧ expand lib k placed = some child := by
  obtain ⟨layer, hlayer, hname⟩ := step
  cases n with
  | zero => cases h
  | succ n =>
    obtain ⟨layer', hlayer', h⟩ := Option.bind_eq_some_iff.mp h
    obtain rfl : layer = layer' := Option.some.inj (hlayer.symm.trans hlayer')
    exact ⟨n, Nat.lt_succ_self n, placed_of_expandLayer h hname⟩

private theorem expand_of_references {lib : Library α} {n : Nat} {key : ModelKey} {m : Model α}
    (h : expand lib n key = some m) {name : PathName} (step : References lib key.name name) :
    ∃ k < n, ∃ placed child, placed.name = name ∧ expand lib k placed = some child := by
  obtain ⟨k, hk, _, -, -, placed, child, -, -, hplaced, hchild⟩ := placed_of_references h step
  exact ⟨k, hk, placed, child, hplaced, hchild⟩

private theorem expand_of_transGen {lib : Library α} {n : Nat} {key : ModelKey} {m : Model α}
    (h : expand lib n key = some m) {name : PathName}
    (reach : TransGen (References lib) key.name name) :
    ∃ k < n, ∃ placed child, placed.name = name ∧ expand lib k placed = some child := by
  induction reach with
  | single step => exact expand_of_references h step
  | tail _ step ih =>
    obtain ⟨k, hk, placed, child, rfl, hchild⟩ := ih
    obtain ⟨i, hi, next, grandchild, hnext, hmodel⟩ := expand_of_references hchild step
    exact ⟨i, hi.trans hk, next, grandchild, hnext, hmodel⟩

theorem HasModel.reaches {lib : Library α} {key : ModelKey} {m : Model α} (h : HasModel lib key m)
    {name : PathName} (reach : ReflTransGen (References lib) key.name name) :
    ∃ placed child, placed.name = name ∧ HasModel lib placed child := by
  obtain ⟨n, hn⟩ := h
  rcases Relation.reflTransGen_iff_eq_or_transGen.mp reach with rfl | reach
  · exact ⟨key, m, rfl, n, hn⟩
  · obtain ⟨k, -, placed, child, hplaced, hchild⟩ := expand_of_transGen hn reach
    exact ⟨placed, child, hplaced, k, hchild⟩

theorem HasModel.defined {lib : Library α} {key : ModelKey} {m : Model α}
    (h : HasModel lib key m) : (lib.get? key.name).isSome = true := by
  obtain ⟨n, hn⟩ := h
  cases n with
  | zero => cases hn
  | succ n =>
    obtain ⟨layer, hlayer, -⟩ := Option.bind_eq_some_iff.mp hn
    rw [hlayer, Option.isSome_some]

private theorem not_transGen_self (lib : Library α) (n : Nat) {key : ModelKey} {m : Model α}
    (h : expand lib n key = some m) : ¬ TransGen (References lib) key.name key.name := by
  induction n using Nat.strong_induction_on generalizing key m with
  | _ n ih =>
    intro hcycle
    obtain ⟨k, hk, placed, child, hplaced, hchild⟩ := expand_of_transGen h hcycle
    rw [← hplaced] at hcycle
    exact ih k hk hchild hcycle

omit [Scalar α] in
theorem transGen_congr {lib : Library α} {a b c : PathName} (same : (a == b) = true)
    (h : TransGen (References lib) a c) : TransGen (References lib) b c := by
  obtain ⟨next, ⟨layer, hlayer, hnext⟩, hrest⟩ := TransGen.head'_iff.mp h
  have hstep : References lib b next := ⟨layer, get?_congr lib same ▸ hlayer, hnext⟩
  exact TransGen.head' hstep hrest

/-- No path with a model leads back to itself, whichever of its names it is placed by. -/
theorem HasModel.not_cycle {lib : Library α} {key : ModelKey} {m : Model α}
    (h : HasModel lib key m) {again : PathName}
    (cycle : TransGen (References lib) key.name again) : (again == key.name) = false := by
  rw [Bool.eq_false_iff]
  intro same
  obtain ⟨placed, child, rfl, n, hchild⟩ := h.reaches cycle.to_reflTransGen
  have hself : TransGen (References lib) placed.name placed.name :=
    transGen_congr (BEq.symm same) cycle
  exact not_transGen_self lib n hchild hself

end Toolpath.Build
