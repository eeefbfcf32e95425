import Toolpath.Proofs.Builder.Expansion

/-!
One level of an expansion. The elements of a model are those of the route through its layer, one for
one; each placed path is the model with one level less that its element asks for, placed between the
ends of the element; and the probes of the model are those of the placed paths and, one for one,
those on its layer.
-/

set_option autoImplicit false

namespace Toolpath.Build

variable {α : Type} [Scalar α]

/-- What is known of a model that is expanded from a layer, with the models of one level less. -/
structure Expanded (lib : Library α) (n : Nat) (key : ModelKey) (m : Model α) (layer : Layer α) :
    Prop where
  found : lib.get? key.name = some layer
  complete : (routeOf layer m.start m.stop).complete = true
  elements : List.Forall₂
    (fun e p => resolved (scopeOf lib.defaults layer key.bindings).1 e
      ((request? (scopeOf lib.defaults layer key.bindings).1 e).bind (expand lib n)) = some p)
    (routeOf layer m.start m.stop).elements m.elements
  probes : ∃ own, List.Forall₂
    (fun e probe => (bedProbe (scopeOf lib.defaults layer key.bindings).1 e).1 = some probe)
    (layer.elements.filter Element.isProbe) own ∧
      m.probes = m.elements.flatMap placedProbes ++ own

section Routes

variable {layer : Layer α} {start stop : Point α}

theorem isProbe_of_mem_route {e : Element α} (he : e ∈ (routeOf layer start stop).elements) :
    e.isProbe = false := by
  obtain ⟨drawn, hdrawn, hturned⟩ := exists_drawn_of_mem_route he
  have hprobe : drawn.isProbe = false := by simpa using (List.mem_filter.mp hdrawn).2
  rcases hturned with rfl | rfl
  · exact hprobe
  · rw [Element.isProbe_reversed, hprobe]

theorem cursor_of_complete (h : (routeOf layer start stop).complete = true) :
    (Route.cursor start (routeOf layer start stop).elements).coincides stop = true := by
  rw [routeOf, Route.assemble_fst] at h ⊢
  exact (Bool.and_eq_true_iff.mp h).1

end Routes

private theorem forall₂_filterMap_map {β γ : Type} {f : β → Option γ} {xs : List β}
    (h : (xs.map f).all Option.isSome = true) :
    List.Forall₂ (fun x y => f x = some y) xs ((xs.map f).filterMap id) := by
  induction xs with
  | nil => exact .nil
  | cons x xs ih =>
    rw [List.map_cons, List.all_cons, Bool.and_eq_true] at h
    obtain ⟨y, hy⟩ := Option.isSome_iff_exists.mp h.1
    rw [List.map_cons, hy]
    exact .cons hy (ih h.2)

theorem exists_getLast?_of_forall₂ {β γ : Type} {R : β → γ → Prop} {xs : List β} {ys : List γ}
    (h : List.Forall₂ R xs ys) {y : γ} (hy : ys.getLast? = some y) :
    ∃ x, xs.getLast? = some x ∧ R x y := by
  induction h with
  | nil => cases hy
  | @cons x y xs ys hxy hrest ih =>
    cases hrest with
    | nil =>
      obtain rfl := Option.some.inj hy
      exact ⟨x, rfl, hxy⟩
    | cons _ _ =>
      rw [List.getLast?_cons_cons] at hy
      obtain ⟨last, hlast, hR⟩ := ih hy
      exact ⟨last, by rw [List.getLast?_cons_cons, hlast], hR⟩

theorem exists_expanded {lib : Library α} {n : Nat} {key : ModelKey} {m : Model α}
    (h : expand lib (n + 1) key = some m) : ∃ layer, Expanded lib n key m layer := by
  obtain ⟨layer, hlayer, h⟩ := Option.bind_eq_some_iff.mp h
  simp only [expandLayer, Option.bind_eq_bind, Option.bind_eq_some_iff] at h
  obtain ⟨start, -, stop, -, h⟩ := h
  obtain ⟨hcomplete, hplaced, hprobes, rfl⟩ := modelOf_eq_some_iff.mp h
  have hroute : (routeOf layer start stop).probes = layer.elements.filter Element.isProbe := by
    rw [routeOf, Route.assemble_fst]
  rw [hroute] at hprobes
  refine ⟨layer, hlayer, hcomplete, forall₂_filterMap_map hplaced, _,
    forall₂_filterMap_map hprobes, ?_⟩
  rw [hroute]

theorem HasModel.exists_expanded {lib : Library α} {key : ModelKey} {m : Model α}
    (h : HasModel lib key m) : ∃ n layer, Expanded lib n key m layer := by
  obtain ⟨n, hn⟩ := h
  cases n with
  | zero => cases hn
  | succ n => exact ⟨n, Build.exists_expanded hn⟩

section Resolved

variable {scope : Scope α} {e : Element α} {outcome : Option (Model α)} {p : Placed α (Model α)}

theorem of_resolved (h : resolved scope e outcome = some p) :
    p.element = e ∧ p.settings = (settingsOf scope e).1 := by
  unfold resolved at h
  dsimp only at h
  split at h
  · obtain ⟨model, -, h⟩ := Option.bind_eq_some_iff.mp h
    obtain ⟨t, -, rfl⟩ := Option.map_eq_some_iff.mp h
    exact ⟨rfl, rfl⟩
  · obtain rfl := Option.some.inj h
    exact ⟨rfl, rfl⟩

theorem of_bedProbe {probe : BedProbe α} (h : (bedProbe scope e).1 = some probe) :
    probe.position = e.start ∧
      ((settingsOf scope e).1.get? .probeHeight).or ((settingsOf scope e).1.get? .top) =
        some probe.target := by
  unfold bedProbe at h
  dsimp only at h
  split at h
  · next target htarget =>
    obtain rfl := Option.some.inj h
    exact ⟨rfl, htarget⟩
  · cases h

private theorem ofAnchors_of_fit {context : Context α} {target : PathName} {start stop : Point α}
    {model : Model α} {t : Placement α} (h : (fit context target start stop model).1 = some t) :
    Placement.ofAnchors model.start model.stop start stop = .ok t := by
  unfold fit at h
  split at h
  · next placement hanchors =>
    obtain rfl := Option.some.inj h
    exact hanchors
  · cases h

theorem resolved_cases (h : resolved scope e outcome = some p) :
    (∃ start stop target sub t, e.kind = .subPath start stop target ∧ outcome = some sub ∧
      Placement.ofAnchors sub.start sub.stop start stop = .ok t ∧ p.sub = some (sub, t)) ∨
    (∀ start stop target, e.kind ≠ .subPath start stop target) ∧ p.sub = none := by
  unfold resolved at h
  dsimp only at h
  split at h
  · next start stop target hkind =>
    obtain ⟨model, hmodel, h⟩ := Option.bind_eq_some_iff.mp h
    obtain ⟨t, ht, rfl⟩ := Option.map_eq_some_iff.mp h
    exact .inl ⟨start, stop, target, model, t, hkind, hmodel, ofAnchors_of_fit ht, rfl⟩
  · next hkind =>
    obtain rfl := Option.some.inj h
    exact .inr ⟨hkind, rfl⟩

end Resolved

end Toolpath.Build
