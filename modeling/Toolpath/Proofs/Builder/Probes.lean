import Toolpath.Proofs.Builder.Contents

/-!
The bed probes of models. A model has the probes that stand on its layer and those of all paths
placed in it. The height at which a probe is expected is a parameter that no default sets, so it was
read from a text and is finite.
-/

set_option autoImplicit false

namespace Toolpath.Build

variable {α : Type} [Scalar α] {lib : Library α} {key : ModelKey} {m : Model α}

def FiniteHeight (f : Field) (value : α) : Prop :=
  f = .top ∨ f = .probeHeight → Scalar.isFinite value = true

private theorem only_overlay (defaults : Defaults α) : defaults.overlay.Only FiniteHeight := by
  rintro f value hvalue (rfl | rfl) <;> cases hvalue

private theorem isFinite_of_bedProbe {defaults : Defaults α} {layer : Layer α} {bindings : Bindings}
    {e : Element α} {probe : BedProbe α}
    (h : (bedProbe (scopeOf defaults layer bindings).1 e).1 = some probe) :
    Scalar.isFinite probe.target = true := by
  have hreads : Overlay.Reads (FiniteHeight (α := α)) := fun _ _ finite _ _ => finite
  have hsettings := only_settingsOf hreads (only_base (only_overlay defaults) hreads layer bindings)
    (only_levels hreads defaults layer bindings) e
  unfold bedProbe at h
  dsimp only at h
  split at h
  · next target htarget =>
    obtain rfl := Option.some.inj h
    rcases Option.or_eq_some_iff.mp htarget with hheight | ⟨-, htop⟩
    · exact hsettings.get? hheight (Or.inr rfl)
    · exact hsettings.get? htop (Or.inl rfl)
  · cases h

private theorem probe_of_expand_succ {n : Nat} (h : expand lib (n + 1) key = some m)
    {probe : BedProbe α} (hprobe : probe ∈ m.probes) :
    (∃ p ∈ m.elements, probe ∈ placedProbes p) ∨ ∃ layer e,
      (bedProbe (scopeOf lib.defaults layer key.bindings).1 e).1 = some probe := by
  obtain ⟨layer, -, h⟩ := Option.bind_eq_some_iff.mp h
  simp only [expandLayer, Option.bind_eq_bind, Option.bind_eq_some_iff] at h
  obtain ⟨start, -, stop, -, h⟩ := h
  obtain ⟨-, -, -, rfl⟩ := modelOf_eq_some_iff.mp h
  rcases List.mem_append.mp hprobe with hplaced | hown
  · exact Or.inl (List.mem_flatMap.mp hplaced)
  · obtain ⟨_, hmem, rfl⟩ := List.mem_filterMap.mp hown
    obtain ⟨e, -, he⟩ := List.mem_map.mp hmem
    exact Or.inr ⟨layer, e, he⟩

theorem HasModel.isFinite_target (h : HasModel lib key m) :
    ∀ probe ∈ m.probes, Scalar.isFinite probe.target = true := by
  obtain ⟨n, hn⟩ := h
  induction n generalizing key m with
  | zero => cases hn
  | succ n ih =>
    intro probe hprobe
    rcases probe_of_expand_succ hn hprobe with ⟨p, hp, hplaced⟩ | ⟨layer, e, he⟩
    · unfold placedProbes at hplaced
      split at hplaced
      · next model placement hsub =>
        obtain ⟨inner, hinner, rfl⟩ := List.mem_map.mp hplaced
        obtain ⟨k, -, hk⟩ := references_of_placed hn hp hsub
        exact ih hk inner hinner
      · cases hplaced
    · exact isFinite_of_bedProbe he

end Toolpath.Build
