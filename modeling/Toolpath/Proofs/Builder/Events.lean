import Toolpath.Proofs.Builder.Errors
import Toolpath.Proofs.Route.Soundness

/-!
What happens while a model is constructed. A construction reports problems and has the models of
placed paths built; everything else in it is a function of the layer and of the outcomes of these
paths. `construct_does` says so once, and what the builder keeps or promises follows from it by
induction on the events.
-/

set_option autoImplicit false

namespace List.Forall₂

variable {β γ : Type} {R : β → γ → Prop} {xs : List β} {ys : List γ}

theorem exists_of_mem_left (h : Forall₂ R xs ys) {x : β} (hx : x ∈ xs) : ∃ y ∈ ys, R x y := by
  induction h with
  | nil => cases hx
  | cons hxy _ ih =>
    rcases List.mem_cons.mp hx with rfl | hx
    · exact ⟨_, by simp, hxy⟩
    · obtain ⟨y, hy, hR⟩ := ih hx
      exact ⟨y, List.mem_cons_of_mem _ hy, hR⟩

theorem exists_of_mem_right (h : Forall₂ R xs ys) {y : γ} (hy : y ∈ ys) : ∃ x ∈ xs, R x y :=
  h.flip.exists_of_mem_left hy

end List.Forall₂

namespace Toolpath.Build

variable {α : Type} [Scalar α]

inductive Event (α : Type)
  | reported (problem : Diagnostic α)
  | placed (key : ModelKey) (outcome : Option (Model α))

/-- Something that keeps a model from being built: an error, or a placed path without a model. -/
def Event.Fails : Event α → Prop
  | .reported d => d.severity = .error
  | .placed _ outcome => outcome = none

def Failed (events : List (Event α)) : Prop := ∃ event ∈ events, event.Fails

def Known (d : Diagnostic α) : Prop :=
  d.severity = .error ∨ ∃ settings context radius, d ∈ helixProblems settings context radius

/-- The builder goes by some events from one state to another. The paths that are placed have one of
some names. -/
inductive Happens (place : ModelKey → Build α (Option (Model α))) (names : List PathName) :
    BuildState α → List (Event α) → BuildState α → Prop
  | nothing (s : BuildState α) : Happens place names s [] s
  | reported {s s' : BuildState α} {events : List (Event α)} (d : Diagnostic α) (known : Known d)
      (rest : Happens place names (s.report [d]) events s') :
      Happens place names s (.reported d :: events) s'
  | placed {s s' : BuildState α} {events : List (Event α)} (key : ModelKey)
      (named : key.name ∈ names)
      (rest : Happens place names ((place key).run s).2 events s') :
      Happens place names s (.placed key ((place key).run s).1 :: events) s'

variable {place : ModelKey → Build α (Option (Model α))} {names : List PathName}

private theorem Happens.append {s t u : BuildState α} {first later : List (Event α)}
    (h : Happens place names s first t) (k : Happens place names t later u) :
    Happens place names s (first ++ later) u := by
  induction h with
  | nothing s => exact k
  | reported d known _ ih => exact .reported d known (ih k)
  | placed key named _ ih => exact .placed key named (ih k)

/-- From every state a step goes by some events to a result, of which something is known. -/
def Does (place : ModelKey → Build α (Option (Model α))) (names : List PathName) {β : Type}
    (step : Build α β) (Q : List (Event α) → β → Prop) : Prop :=
  ∀ s, ∃ events, Happens place names s events (step.run s).2 ∧ Q events (step.run s).1

namespace Does

variable {β γ : Type}

private theorem pure {b : β} {Q : List (Event α) → β → Prop} (h : Q [] b) :
    Does place names (Pure.pure b) Q :=
  fun s => ⟨[], .nothing s, h⟩

private theorem bind {x : Build α β} {f : β → Build α γ} {P : List (Event α) → β → Prop}
    {Q : List (Event α) → γ → Prop} (hx : Does place names x P)
    (hf : ∀ b events, P events b → Does place names (f b) fun later c => Q (events ++ later) c) :
    Does place names (x >>= f) Q := by
  intro s
  obtain ⟨first, hfirst, hP⟩ := hx s
  obtain ⟨later, hlater, hQ⟩ := hf _ first hP (x.run s).2
  exact ⟨first ++ later, hfirst.append hlater, hQ⟩

private theorem report {ds : List (Diagnostic α)} (known : ∀ d ∈ ds, Known d) :
    Does place names (Build.report ds) fun events _ => ∀ d ∈ ds, .reported d ∈ events := by
  have run (ds : List (Diagnostic α)) (known : ∀ d ∈ ds, Known d) (s : BuildState α) :
      Happens place names s (ds.map .reported) (s.report ds) := by
    induction ds generalizing s with
    | nil =>
      have hs : s.report [] = s := by simp [BuildState.report]
      rw [hs]
      exact .nothing s
    | cons d ds ih =>
      have hrest := ih (fun e he => known e (List.mem_cons_of_mem d he)) (s.report [d])
      have hs : (s.report [d]).report ds = s.report (d :: ds) := by simp [BuildState.report]
      rw [hs] at hrest
      exact .reported d (known d (by simp)) hrest
  intro s
  exact ⟨_, run ds known s, fun d hd => List.mem_map_of_mem hd⟩

private theorem take {result : β × List (Diagnostic α)} (errors : AllErrors result.2) :
    Does place names (Build.take result) fun events b =>
      b = result.1 ∧ ∀ d ∈ result.2, .reported d ∈ events :=
  .bind (.report fun d hd => Or.inl (errors d hd)) fun _ events h =>
    .pure ⟨rfl, fun d hd => by simpa using h d hd⟩

private theorem placing (key : ModelKey) (named : key.name ∈ names) :
    Does place names (place key) fun events outcome => .placed key outcome ∈ events :=
  fun _ => ⟨_, .placed key named (.nothing _), by simp⟩

private theorem mapM {f : β → Build α γ} {Q : β → List (Event α) → γ → Prop} {xs : List β}
    (hf : ∀ x ∈ xs, Does place names (f x) (Q x))
    (grow : ∀ x events later c, events ⊆ later → Q x events c → Q x later c) :
    Does place names (xs.mapM f) fun events ys => List.Forall₂ (fun x y => Q x events y) xs ys := by
  induction xs with
  | nil =>
    rw [List.mapM_nil]
    exact .pure .nil
  | cons x xs ih =>
    rw [List.mapM_cons]
    refine .bind (hf x (by simp)) fun y first hy => ?_
    refine .bind (ih fun z hz => hf z (List.mem_cons_of_mem x hz)) fun ys later hys => ?_
    refine .pure (.cons (grow x first _ y (List.subset_append_left _ _) hy) ?_)
    refine hys.imp fun z c hc => grow z later _ c ?_ hc
    simp

end Does

def request? (scope : Scope α) (e : Element α) : Option ModelKey :=
  match e.kind with
  | .subPath _ _ target =>
    (childBindings scope.bindings e.params.entries ∅).toOption.map fun child => ⟨target, child⟩
  | _ => none

/-- An element resolved, where the model that it asks for has some outcome. -/
def resolved (scope : Scope α) (e : Element α) (outcome : Option (Model α)) :
    Option (Placed α (Model α)) :=
  let settings := (settingsOf scope e).1
  match e.kind with
  | .subPath start stop target =>
    outcome.bind fun model =>
      (fit (e.context scope.path) target start stop model).1.map fun t =>
        ⟨e, settings, some (model, t)⟩
  | _ => some ⟨e, settings, none⟩

/-- The outcome is that of the path that an element places, and nothing for other elements. -/
def Answered (scope : Scope α) (e : Element α) (events : List (Event α))
    (outcome : Option (Model α)) : Prop :=
  match request? scope e with
  | none => outcome = none
  | some key => .placed key outcome ∈ events

omit [Scalar α] in
private theorem Failed.of_reported {ds : List (Diagnostic α)} {events : List (Event α)}
    (error : ∃ d ∈ ds, d.severity = .error) (reported : ∀ d ∈ ds, .reported d ∈ events) :
    Failed events := by
  obtain ⟨d, hd, hseverity⟩ := error
  exact ⟨.reported d, reported d hd, hseverity⟩

/-- What is known of an element that was resolved. -/
structure Resolved (scope : Scope α) (e : Element α) (events : List (Event α))
    (p : Option (Placed α (Model α))) : Prop where
  reported : ∀ d ∈ (settingsOf scope e).1.problems, .reported d ∈ events
  warned : ∀ center radius mark, e.kind = .helix center radius mark →
    ∀ d ∈ helixProblems (settingsOf scope e).1 (e.context scope.path) radius, .reported d ∈ events
  failed : p = none → Failed events
  outcome : ∃ outcome, Answered scope e events outcome ∧ p = resolved scope e outcome

private theorem Resolved.grow {scope : Scope α} {e : Element α} {events later : List (Event α)}
    {p : Option (Placed α (Model α))} (sub : events ⊆ later) (h : Resolved scope e events p) :
    Resolved scope e later p where
  reported d hd := sub (h.reported d hd)
  warned center radius mark hkind d hd := sub (h.warned center radius mark hkind d hd)
  failed hp := by
    obtain ⟨event, hevent, hfails⟩ := h.failed hp
    exact ⟨event, sub hevent, hfails⟩
  outcome := by
    obtain ⟨outcome, hanswered, hp⟩ := h.outcome
    refine ⟨outcome, ?_, hp⟩
    unfold Answered at hanswered ⊢
    split at hanswered
    · exact hanswered
    · exact sub hanswered

omit [Scalar α] in
def Target (e : Element α) (name : PathName) : Prop :=
  ∃ start stop, e.kind = .subPath start stop name

private theorem resolve_does (scope : Scope α) (e : Element α)
    (named : ∀ name, Target e name → name ∈ names) :
    Does place names (resolve place scope e) (Resolved scope e) := by
  unfold resolve
  refine .bind (.take (allErrors_settingsOf scope e)) fun settings first hfirst => ?_
  obtain ⟨rfl, -⟩ := hfirst
  refine .bind (.report fun d hd => Or.inl (Settings.allErrors_problems _ d hd))
    fun _ second hsecond => ?_
  dsimp only
  split
  · next center radius mark hkind =>
    refine .bind (.report fun d hd => Or.inr ⟨_, _, _, hd⟩) fun _ third hthird => .pure ?_
    refine ⟨fun d hd => by simp [hsecond d hd], fun _ radius' _ hsame d hd => ?_, by simp, none, ?_,
      ?_⟩
    · obtain ⟨-, rfl, -⟩ := ElementKind.helix.inj (hkind.symm.trans hsame)
      simp [hthird d hd]
    · simp [Answered, request?, hkind]
    · simp [resolved, hkind]
  · next start stop target hkind =>
    split
    · next letter hchild =>
      refine .bind (.report fun d hd => ?_) fun _ third hthird => .pure ?_
      · rw [List.mem_singleton] at hd
        exact Or.inl (hd ▸ rfl)
      · refine ⟨fun d hd => by simp [hsecond d hd], by simp [hkind], fun _ => ?_, none, ?_, ?_⟩
        · have hunbound := hthird _ (List.mem_singleton.mpr rfl)
          have hlater := List.mem_append_right second (List.mem_append_left [] hunbound)
          exact ⟨_, List.mem_append_right first hlater, rfl⟩
        · simp [Answered, request?, hkind, hchild, Except.toOption]
        · simp [resolved, hkind]
    · next child hchild =>
      have hrequest : request? scope e = some ⟨target, child⟩ := by
        simp [request?, hkind, hchild, Except.toOption]
      refine .bind (.placing ⟨target, child⟩ (named target ⟨start, stop, hkind⟩))
        fun outcome third hthird => ?_
      cases outcome with
      | none =>
        refine .pure ⟨fun d hd => by simp [hsecond d hd], by simp [hkind], fun _ => ?_, none, ?_, ?_⟩
        · exact ⟨.placed ⟨target, child⟩ none, by simp [hthird], rfl⟩
        · simp [Answered, hrequest, hthird]
        · simp [resolved, hkind]
      | some model =>
        refine .bind (.take (allErrors_fit _ _ _ _ _)) fun placement fourth hfourth => .pure ?_
        obtain ⟨rfl, hreported⟩ := hfourth
        refine ⟨fun d hd => by simp [hsecond d hd], by simp [hkind], fun hnone => ?_, some model, ?_,
          ?_⟩
        · have hfit := explained_fit _ _ _ _ _ (Option.map_eq_none_iff.mp hnone)
          exact .of_reported hfit fun d hd => by simp [hreported d hd]
        · simp [Answered, hrequest, hthird]
        · simp [resolved, hkind]
  · next hhelix hsub =>
    refine .pure ⟨fun d hd => by simp [hsecond d hd], fun _ _ _ hkind => absurd hkind (hhelix _ _ _),
      by simp, none, ?_, ?_⟩
    · have hrequest : request? scope e = none := by
        unfold request?
        split
        · next hkind => exact absurd hkind (hsub _ _ _)
        · rfl
      simp [Answered, hrequest]
    · unfold resolved
      split
      · next hkind => exact absurd hkind (hsub _ _ _)
      · rfl

omit [Scalar α] in
private theorem Target.reversed_iff (e : Element α) (name : PathName) :
    Target e.reversed name ↔ Target e name := by
  obtain ⟨kind, order, params⟩ := e
  cases kind <;> simp [Target, Element.reversed]

/-- The route through a layer between its marks. -/
def routeOf (layer : Layer α) (start stop : Point α) : Route α :=
  (Route.assemble layer.name layer.elements start stop).1

omit [Scalar α] in
theorem mem_references_iff (layer : Layer α) (name : PathName) :
    name ∈ layer.references ↔ ∃ e ∈ layer.elements, Target e name := by
  unfold Layer.references
  rw [List.mem_filterMap]
  refine exists_congr fun e => and_congr_right fun _ => ?_
  unfold Target
  cases e.kind <;> simp

omit [Scalar α] in
theorem target_iff_of_turned {drawn placed : Element α} (h : Route.Turned drawn placed)
    (name : PathName) : Target placed name ↔ Target drawn name := by
  rcases h with rfl | rfl
  · rfl
  · exact Target.reversed_iff drawn name

theorem exists_drawn_of_mem_route {layer : Layer α} {start stop : Point α} {e : Element α}
    (he : e ∈ (routeOf layer start stop).elements) :
    ∃ drawn ∈ Route.drawn layer.elements, Route.Turned drawn e := by
  rw [routeOf, Route.assemble_fst] at he
  obtain ⟨used, hperm, hturned, -⟩ :=
    Route.walk_sound start (Nat.le_refl (Route.drawn layer.elements).length)
  obtain ⟨drawn, hused, hdrawn⟩ := hturned.exists_of_mem_right he
  exact ⟨drawn, hperm.mem_iff.mp (List.mem_append_left _ hused), hdrawn⟩

theorem references_of_mem_route {layer : Layer α} {start stop : Point α} {e : Element α}
    (he : e ∈ (routeOf layer start stop).elements) (name : PathName) (h : Target e name) :
    name ∈ layer.references := by
  obtain ⟨drawn, hdrawn, hturned⟩ := exists_drawn_of_mem_route he
  have htarget := (target_iff_of_turned hturned name).mp h
  exact (mem_references_iff layer name).mpr ⟨drawn, (List.mem_filter.mp hdrawn).1, htarget⟩

private theorem modelOf_eq_none_iff {scope : Scope α} {start stop : Point α} {route : Route α}
    {placed : List (Option (Placed α (Model α)))} :
    modelOf scope start stop route placed = none ↔ route.complete = false ∨ none ∈ placed ∨
      ∃ e ∈ route.probes, (bedProbe scope e).1 = none := by
  simp only [modelOf, ite_eq_right_iff, reduceCtorEq, imp_false, Bool.and_eq_true, not_and_or,
    Bool.not_eq_true, List.all_eq_false, List.mem_map, Option.isSome_eq_false_iff, or_assoc]
  simp

/-- What is known of a model that was constructed. -/
structure Constructed (defaults : Defaults α) (layer : Layer α) (bindings : Bindings)
    (events : List (Event α)) (outcome : Option (Model α)) : Prop where
  reported : ∀ d ∈ (scopeOf defaults layer bindings).1.base.problems, .reported d ∈ events
  failed : outcome = none → Failed events
  outcome : match (anchor layer .start).1, (anchor layer .stop).1 with
    | some start, some stop =>
      ∃ placed, List.Forall₂
          (fun e p => Resolved (scopeOf defaults layer bindings).1 e events p)
          (routeOf layer start stop).elements placed ∧
        outcome = modelOf (scopeOf defaults layer bindings).1 start stop
          (routeOf layer start stop) placed
    | _, _ => outcome = none

variable (place) in
theorem construct_does (defaults : Defaults α) (layer : Layer α) (bindings : Bindings) :
    Does place layer.references (construct place defaults layer bindings)
      (Constructed defaults layer bindings) := by
  unfold construct
  refine .bind (.take (allErrors_anchor _ _)) fun start first hstart => ?_
  refine .bind (.take (allErrors_anchor _ _)) fun stop second hstop => ?_
  refine .bind (.take (allErrors_scopeOf _ _ _)) fun scope third hscope => ?_
  obtain ⟨rfl, hbegun⟩ := hstart
  obtain ⟨rfl, hended⟩ := hstop
  obtain ⟨rfl, hreported⟩ := hscope
  have hbase : ∀ d ∈ (scopeOf defaults layer bindings).1.base.problems, .reported d ∈ third := by
    intro d hd
    refine hreported d ?_
    simp only [scopeOf] at hd ⊢
    simp [hd]
  split
  · next start stop hstart hstop =>
    refine .bind (.take (Route.allErrors_assemble _ _ _ _)) fun route fourth hroute => ?_
    obtain ⟨rfl, hrouted⟩ := hroute
    refine .bind (.mapM (fun e he => resolve_does _ e (references_of_mem_route he))
      fun _ _ _ _ sub h => h.grow sub) fun placed fifth hplaced => ?_
    refine .bind (.report fun d hd => ?_) fun _ sixth hprobed => .pure ?_
    · obtain ⟨e, -, hd⟩ := List.mem_flatMap.mp hd
      exact Or.inl (allErrors_bedProbe _ e d hd)
    refine ⟨fun d hd => by simp [hbase d hd], fun hnone => ?_, ?_⟩
    · rcases modelOf_eq_none_iff.mp hnone with hbroken | hunresolved | ⟨e, he, hprobe⟩
      · refine .of_reported (Route.exists_error_of_not_complete hbroken) fun d hd => ?_
        simp [hrouted d hd]
      · obtain ⟨e, -, he⟩ := hplaced.exists_of_mem_right hunresolved
        obtain ⟨event, hevent, hfails⟩ := he.failed rfl
        exact ⟨event, by simp [hevent], hfails⟩
      · refine .of_reported (explained_bedProbe _ e hprobe) fun d hd => ?_
        simp [hprobed d (List.mem_flatMap.mpr ⟨e, he, hd⟩)]
    · rw [hstart, hstop]
      refine ⟨placed, hplaced.imp fun e p h => h.grow ?_, rfl⟩
      intro event hevent
      simp [hevent]
  · next hnone =>
    refine .pure ⟨fun d hd => by simp [hbase d hd], fun _ => ?_, ?_⟩
    · cases hstart : (anchor layer .start).1 with
      | none =>
        refine .of_reported (explained_anchor layer .start hstart) fun d hd => ?_
        simp [hbegun d hd]
      | some start =>
        have hstop : (anchor layer .stop).1 = none :=
          Option.eq_none_iff_forall_ne_some.mpr fun stop hstop => hnone start stop hstart hstop
        refine .of_reported (explained_anchor layer .stop hstop) fun d hd => ?_
        simp [hended d hd]
    · split
      · next start stop hstart hstop => exact absurd hstop (hnone _ _ hstart)
      · rfl

end Toolpath.Build
