import Toolpath.Proofs.Builder.Calls

/-!
The models of a library without a builder. A model is expanded from the models of the paths that it
places, each computed anew and no deeper than so many levels; no memo, no stack and no report takes
part. More levels only add models, so a key has at most one model, and that model is what a builder
should find, whatever it built before.
-/

set_option autoImplicit false

namespace Toolpath.Build

variable {α : Type}

/-- The second outcome is the first, unless the first is nothing. -/
def Extends {β : Type} (x y : Option β) : Prop := ∀ b, x = some b → y = some b

variable [Scalar α]

/-- The model of a layer, where `answer` gives the models of the paths that it places. -/
def expandLayer (answer : ModelKey → Option (Model α)) (defaults : Defaults α) (layer : Layer α)
    (bindings : Bindings) : Option (Model α) := do
  let start ← (anchor layer .start).1
  let stop ← (anchor layer .stop).1
  let scope := (scopeOf defaults layer bindings).1
  let route := routeOf layer start stop
  modelOf scope start stop route
    (route.elements.map fun e => resolved scope e ((request? scope e).bind answer))

/-- The model for a key with fewer than so many levels of paths inside each other. -/
def expand (lib : Library α) : Nat → ModelKey → Option (Model α)
  | 0, _ => none
  | n + 1, key =>
    (lib.get? key.name).bind fun layer =>
      expandLayer (expand lib n) lib.defaults layer key.bindings

/-- The model that a library holds for a key. -/
def HasModel (lib : Library α) (key : ModelKey) (m : Model α) : Prop :=
  ∃ n, expand lib n key = some m

section Monotone

private theorem Extends.resolved {scope : Scope α} {e : Element α} {x y : Option (Model α)}
    (h : Extends x y) : Extends (resolved scope e x) (resolved scope e y) := by
  intro p hp
  unfold Build.resolved at hp ⊢
  split at hp
  · next start stop target hkind =>
    obtain ⟨model, hx, hp⟩ := Option.bind_eq_some_iff.mp hp
    rw [h model hx]
    exact hp
  · exact hp

theorem modelOf_eq_some_iff {scope : Scope α} {start stop : Point α} {route : Route α}
    {placed : List (Option (Placed α (Model α)))} {m : Model α} :
    modelOf scope start stop route placed = some m ↔
      route.complete = true ∧ placed.all Option.isSome = true ∧
        (route.probes.map fun e => (bedProbe scope e).1).all Option.isSome = true ∧
        m = ⟨scope.path, scope.base, start, stop, placed.filterMap id,
          (placed.filterMap id).flatMap placedProbes ++
            (route.probes.map fun e => (bedProbe scope e).1).filterMap id⟩ := by
  simp only [modelOf]
  split
  · next h =>
    simp only [Bool.and_eq_true] at h
    simp [h, eq_comm]
  · next h =>
    simp only [Bool.and_eq_true, not_and] at h
    simp only [reduceCtorEq, false_iff, not_and]
    intro hcomplete hplaced hprobes
    exact absurd hprobes (h ⟨hcomplete, hplaced⟩)

private theorem Extends.modelOf {scope : Scope α} {start stop : Point α} {route : Route α}
    {xs ys : List (Option (Placed α (Model α)))} (h : List.Forall₂ Extends xs ys) :
    Extends (modelOf scope start stop route xs) (modelOf scope start stop route ys) := by
  intro m hm
  have hall : xs.all Option.isSome = true := (modelOf_eq_some_iff.mp hm).2.1
  -- A model needs all of `xs`, and what is there stays, so nothing is left to differ.
  have hsame : xs = ys := by
    clear hm
    induction h with
    | nil => rfl
    | cons hxy _ ih =>
      rw [List.all_cons, Bool.and_eq_true] at hall
      obtain ⟨p, hp⟩ := Option.isSome_iff_exists.mp hall.1
      rw [ih hall.2, hp, hxy p hp]
  exact hsame ▸ hm

private theorem Extends.expandLayer {answer later : ModelKey → Option (Model α)}
    (h : ∀ key, Extends (answer key) (later key)) (defaults : Defaults α) (layer : Layer α)
    (bindings : Bindings) :
    Extends (expandLayer answer defaults layer bindings)
      (expandLayer later defaults layer bindings) := by
  intro m hm
  unfold Build.expandLayer at hm ⊢
  simp only [Option.bind_eq_bind, Option.bind_eq_some_iff] at hm ⊢
  obtain ⟨start, hstart, stop, hstop, hm⟩ := hm
  refine ⟨start, hstart, stop, hstop, Extends.modelOf ?_ m hm⟩
  rw [List.forall₂_map_left_iff, List.forall₂_map_right_iff, List.forall₂_same]
  intro e _
  refine Extends.resolved fun model hmodel => ?_
  obtain ⟨key, hkey, hanswer⟩ := Option.bind_eq_some_iff.mp hmodel
  exact Option.bind_eq_some_iff.mpr ⟨key, hkey, h key model hanswer⟩

private theorem extends_expand_succ (lib : Library α) (n : Nat) (key : ModelKey) :
    Extends (expand lib n key) (expand lib (n + 1) key) := by
  induction n generalizing key with
  | zero =>
    intro m hm
    cases hm
  | succ n ih =>
    intro m hm
    obtain ⟨layer, hlayer, hm⟩ := Option.bind_eq_some_iff.mp hm
    exact Option.bind_eq_some_iff.mpr ⟨layer, hlayer, Extends.expandLayer ih _ _ _ m hm⟩

theorem extends_expand (lib : Library α) {n k : Nat} (h : n ≤ k) (key : ModelKey) :
    Extends (expand lib n key) (expand lib k key) := by
  induction h with
  | refl => exact fun m hm => hm
  | step _ ih => exact fun m hm => extends_expand_succ lib _ key m (ih m hm)

theorem HasModel.unique {lib : Library α} {key : ModelKey} {m m' : Model α}
    (h : HasModel lib key m) (h' : HasModel lib key m') : m = m' := by
  obtain ⟨n, hn⟩ := h
  obtain ⟨k, hk⟩ := h'
  have hm := extends_expand lib (Nat.le_max_left n k) key m hn
  have hm' := extends_expand lib (Nat.le_max_right n k) key m' hk
  exact Option.some.inj (hm.symm.trans hm')

omit [Scalar α] in
theorem get?_congr (lib : Library α) {a b : PathName} (h : (a == b) = true) :
    lib.get? a = lib.get? b := by
  have hsame : (fun l : Layer α => l.name == a) = fun l => l.name == b :=
    funext fun l => BEq.congr_right h
  exact congrArg lib.layers.find? hsame

private theorem expand_congr (lib : Library α) (n : Nat) {key key' : ModelKey}
    (h : key.same key' = true) : expand lib n key = expand lib n key' := by
  rw [ModelKey.same, Bool.and_eq_true] at h
  cases n with
  | zero => rfl
  | succ n => rw [expand, expand, get?_congr lib h.1, eq_of_beq h.2]

theorem hasModel_congr {lib : Library α} {key key' : ModelKey} (h : key.same key' = true)
    (m : Model α) : HasModel lib key m ↔ HasModel lib key' m := by
  simp only [HasModel, expand_congr lib _ h]

end Monotone

section Constructions

variable {defaults : Defaults α} {layer : Layer α} {bindings : Bindings}
  {events : List (Event α)} {outcome : Option (Model α)}
  {answer : ModelKey → Option (Model α)}

theorem Constructed.extends_expandLayer (h : Constructed defaults layer bindings events outcome)
    (knows : ∀ key r, .placed key r ∈ events → Extends r (answer key)) :
    Extends outcome (expandLayer answer defaults layer bindings) := by
  intro m hm
  have hout := h.outcome
  unfold expandLayer
  split at hout
  · next start stop hstart hstop =>
    obtain ⟨placed, hplaced, hout⟩ := hout
    simp only [Option.bind_eq_bind, Option.bind_eq_some_iff]
    refine ⟨start, hstart, stop, hstop, Extends.modelOf ?_ m (hout ▸ hm)⟩
    rw [List.forall₂_map_right_iff]
    refine hplaced.flip.imp fun p e hp => ?_
    obtain ⟨r, hanswered, rfl⟩ := hp.outcome
    refine Extends.resolved fun model hmodel => ?_
    unfold Answered at hanswered
    cases hrequest : request? (scopeOf defaults layer bindings).1 e with
    | none =>
      rw [hrequest] at hanswered
      rw [hanswered] at hmodel
      cases hmodel
    | some key =>
      rw [hrequest] at hanswered
      exact knows key r hanswered model hmodel
  · rw [hout] at hm
    cases hm

theorem Constructed.expandLayer_extends (h : Constructed defaults layer bindings events outcome)
    (known : ∀ key r, .placed key r ∈ events → Extends (answer key) r) :
    Extends (expandLayer answer defaults layer bindings) outcome := by
  intro m hm
  have hout := h.outcome
  unfold expandLayer at hm
  simp only [Option.bind_eq_bind, Option.bind_eq_some_iff] at hm
  obtain ⟨start, hstart, stop, hstop, hm⟩ := hm
  rw [hstart, hstop] at hout
  obtain ⟨placed, hplaced, rfl⟩ := hout
  refine Extends.modelOf ?_ m hm
  rw [List.forall₂_map_left_iff]
  refine hplaced.imp fun e p hp => ?_
  obtain ⟨r, hanswered, rfl⟩ := hp.outcome
  refine Extends.resolved fun model hmodel => ?_
  obtain ⟨key, hkey, hmodel⟩ := Option.bind_eq_some_iff.mp hmodel
  unfold Answered at hanswered
  rw [hkey] at hanswered
  exact known key r hanswered model hmodel

end Constructions

end Toolpath.Build
