import Toolpath.Proofs.Builder.Names
import Toolpath.Proofs.Model.Sources
import Toolpath.Proofs.Params.Required

/-!
Which parameters a program needs. A cut and a hole need the surface and the floor of the material,
and a cut with bridges needs their distance and height; every other parameter has a value for the
whole job or a fallback. So the program of a model fails exactly if an element on its route, or on
that of a path placed in it, lacks one of these, and its probing program never fails.
-/

set_option autoImplicit false

namespace Toolpath

variable {α : Type}

def Cut.bridgeFields (c : Cut α) : List Field :=
  if !c.mark && (c.settings.get? .barWidth).isSome then [.barRun, .barHeight] else []

/-- The parameters that an element needs, but for those that every job sets. -/
def Placed.needed {μ : Type} (p : Placed α μ) : List Field :=
  match p.element.kind with
  | .cut shape mark => .top :: .bottom :: Cut.bridgeFields ⟨shape, mark, p.settings⟩
  | .helix .. | .drill .. => [.top, .bottom]
  | _ => []

/-- The settings of an element begin with the values of the job, and exactly the elements that place
a path have a model. -/
structure Placed.Equipped {μ : Type} (p : Placed α μ) : Prop where
  settings : p.settings.Equipped
  sub : p.sub.isSome = true ↔ ∃ name, Build.Target p.element name

namespace MillChain

def Asks (chain : MillChain α) (s : Settings α) (f : Field) : Prop :=
  ∃ cut ∈ chain, cut.settings.Asks (.top :: .bottom :: cut.bridgeFields) s f

def Equipped (chain : MillChain α) : Prop := ∀ cut ∈ chain, cut.settings.Equipped

private theorem asks_append (chain later : MillChain α) (s : Settings α) (f : Field) :
    Asks (chain ++ later) s f ↔ chain.Asks s f ∨ later.Asks s f := by
  simp [Asks, or_and_right, exists_or]

private theorem asks_singleton (cut : Cut α) (s : Settings α) (f : Field) :
    Asks [cut] s f ↔ cut.settings.Asks (.top :: .bottom :: cut.bridgeFields) s f := by
  simp [Asks]

end MillChain

section Steps

variable [Scalar α]

private theorem HoleParams.needs_ofSettings {s : Settings α} (h : s.Equipped) :
    Needs (s.Asks [.top, .bottom]) (HoleParams.ofSettings s) := by
  refine .bind_asks h.feeds fun feeds => ?_
  refine .bind_asks (.require s .top) fun top => ?_
  refine .bind_asks (.require s .bottom) fun bottom => ?_
  exact .bind_ok (h.require (by simp)) fun _ => ⟨_, rfl⟩

omit [Scalar α] in
private theorem ChainKey.needs_ofSettings {s : Settings α} (h : s.Equipped) (mark : Bool) :
    Needs (s.Asks [.top]) (ChainKey.ofSettings s mark) :=
  .bind_asks (.require s .top) fun _ =>
    .bind_ok (h.require (by simp)) fun _ => ⟨_, rfl⟩

namespace Cut

private theorem needs_pieces (c : Cut α) :
    Needs (c.settings.Asks (.bottom :: c.bridgeFields)) c.pieces := by
  unfold pieces bridgeFields
  cases c.mark with
  | true => exact .bind_ok (.require _ .bottom) fun _ => ⟨_, rfl⟩
  | false =>
    cases c.settings.get? .barWidth with
    | none => exact .bind_ok (.require _ .bottom) fun _ => ⟨_, rfl⟩
    | some width =>
      refine .bind_asks (.require _ .bottom) fun bottom => ?_
      refine .bind_asks (.require _ .barRun) fun minRun => ?_
      refine .bind_asks (.require _ .barHeight) fun height => ?_
      dsimp only
      split
      · exact .ok _
      · exact .ok _

private theorem needs_piles {c : Cut α} (h : c.settings.Equipped) :
    Needs (c.settings.Asks (.top :: .bottom :: c.bridgeFields)) c.piles := by
  refine .bind_asks (.require _ .top) fun top => ?_
  refine .bind_asks h.feeds fun feeds => ?_
  refine .bind_asks (h.require (by simp)) fun sweep => ?_
  exact .bind_ok c.needs_pieces fun _ => ⟨_, rfl⟩

end Cut

namespace MillChain

private theorem needs_piles {chain : MillChain α} (h : chain.Equipped) :
    Needs chain.Asks chain.piles := by
  induction chain with
  | nil => exact .ok_of_not (by simp [Asks]) _
  | cons cut chain ih =>
    have hcut := Cut.needs_piles (h cut List.mem_cons_self)
    have hlater := ih fun c hc => h c (List.mem_cons_of_mem cut hc)
    refine (hcut.bind fun first => hlater.bind_ok fun _ => ⟨_, rfl⟩).congr fun t f _ => ?_
    simp [Asks]

private theorem exists_finish {chain : MillChain α} (h : chain.Equipped) (w : Writer α)
    (setup : Setup α) :
    ∃ w', chain.finish w setup = .ok w' := by
  unfold finish
  split
  · exact ⟨w, rfl⟩
  · next last hlast =>
    dsimp only
    split
    · exact ⟨w, rfl⟩
    · have hsweep : Needs (last.settings.Asks []) (last.settings.require .sweepHeight) :=
        (h last (List.mem_of_getLast? hlast)).require (by simp)
      exact (hsweep.bind_ok fun _ => ⟨_, rfl⟩).exists_ok

private theorem needs_mill {chain : MillChain α} (h : chain.Equipped) (w : Writer α)
    (setup : Setup α) :
    Needs chain.Asks (chain.mill w setup) :=
  (needs_piles h).bind_ok fun _ => exists_finish h _ setup

end MillChain

end Steps

namespace Model

def Asks (m : Model α) (s : Settings α) (f : Field) : Prop :=
  ∃ p, m.HasElement p ∧ p.settings.Asks p.needed s f

def Equipped (m : Model α) : Prop := ∀ p, m.HasElement p → p.Equipped

def RouteAsks (elements : List (Placed α (Model α))) (s : Settings α) (f : Field) : Prop :=
  ∃ p ∈ elements, p.settings.Asks p.needed s f ∨ ∃ sub t, p.sub = some (sub, t) ∧ sub.Asks s f

private theorem asks_iff (m : Model α) (s : Settings α) (f : Field) :
    m.Asks s f ↔ RouteAsks m.elements s f := by
  constructor
  · rintro ⟨p, hp, hasked⟩
    rcases hasElement_iff.mp hp with hp | ⟨q, hq, sub, t, hplaces, hp⟩
    · exact ⟨p, hp, Or.inl hasked⟩
    · exact ⟨q, hq, Or.inr ⟨sub, t, hplaces, p, hp, hasked⟩⟩
  · rintro ⟨q, hq, hasked | ⟨sub, t, hplaces, p, hp, hasked⟩⟩
    · exact ⟨q, hasElement_iff.mpr (Or.inl hq), hasked⟩
    · exact ⟨p, hasElement_iff.mpr (Or.inr ⟨q, hq, sub, t, hplaces, hp⟩), hasked⟩

private theorem routeAsks_cons (p : Placed α (Model α)) (rest : List (Placed α (Model α)))
    (s : Settings α) (f : Field) :
    RouteAsks (p :: rest) s f ↔
      (p.settings.Asks p.needed s f ∨ ∃ sub t, p.sub = some (sub, t) ∧ sub.Asks s f) ∨
        RouteAsks rest s f := by
  simp [RouteAsks]

private theorem routeAsks_cons_of_none {p : Placed α (Model α)} (h : p.sub = none)
    (rest : List (Placed α (Model α))) (s : Settings α) (f : Field) :
    RouteAsks (p :: rest) s f ↔ p.settings.Asks p.needed s f ∨ RouteAsks rest s f := by
  simp [routeAsks_cons, h]

variable [Scalar α]

private theorem needs_emitSingle {p : Placed α (Model α)} (h : p.settings.Equipped)
    (other : ∀ shape mark, p.element.kind ≠ .cut shape mark) (w : Writer α) (setup : Setup α) :
    Needs (p.settings.Asks p.needed) (emitSingle p.element p.settings w setup) := by
  have hsweep (dest : Point α) : Needs (p.settings.Asks []) (do
      let height ← p.settings.require .sweepHeight
      let rate ← p.settings.require .sweepRate
      return (w.rapidTo height).travelTo dest (some rate)) :=
    .bind_asks (h.require (by simp)) fun _ => .bind_ok (h.require (by simp)) fun _ => ⟨_, rfl⟩
  unfold emitSingle Placed.needed
  cases hkind : p.element.kind with
  | cut shape mark => exact absurd hkind (other shape mark)
  | drill center mark => exact .bind_ok (HoleParams.needs_ofSettings h) fun _ => ⟨_, rfl⟩
  | helix center radius mark =>
    refine .bind_asks (HoleParams.needs_ofSettings h) fun _ => ?_
    exact .bind_ok (h.require (by simp)) fun _ => ⟨_, rfl⟩
  | sweep start stop => exact hsweep _
  | backSweep start stop => exact hsweep _
  | subPath start stop target => exact .ok w
  | probe position => exact .ok w

def OpenChain.cuts : OpenChain α → MillChain α
  | none => []
  | some (_, cuts) => cuts

private theorem needs_closeChain {chain : OpenChain α} (h : chain.cuts.Equipped) (w : Writer α)
    (setup : Setup α) : Needs chain.cuts.Asks (closeChain chain w setup) := by
  cases chain with
  | none => exact .ok_of_not (by simp [OpenChain.cuts, MillChain.Asks]) w
  | some shared => exact MillChain.needs_mill h w setup

/-- What the moves along a route ask for, whatever cuts are still to be milled before them. -/
def NeedsRoute (setup : Setup α) (elements : List (Placed α (Model α))) : Prop :=
  ∀ chain : OpenChain α, chain.cuts.Equipped → ∀ w,
    Needs (fun s f => chain.cuts.Asks s f ∨ RouteAsks elements s f)
      (emitElements setup chain w elements)

section Route

variable {setup : Setup α} {element : Element α} {settings : Settings α}
  {rest : List (Placed α (Model α))}

private theorem needsRoute_nil : NeedsRoute setup [] := by
  intro chain hchain w
  rw [emitElements]
  exact (needs_closeChain hchain w setup).congr fun s f _ => by simp [RouteAsks]

private theorem NeedsRoute.closed (h : NeedsRoute setup rest) (w : Writer α) :
    Needs (RouteAsks rest) (emitElements setup none w rest) :=
  (h none (by simp [MillChain.Equipped, OpenChain.cuts]) w).congr fun s f _ => by
    simp [MillChain.Asks, OpenChain.cuts]

private theorem NeedsRoute.cut (h : NeedsRoute setup rest) (equipped : settings.Equipped)
    {shape : Shape α} {mark : Bool} (hkind : element.kind = .cut shape mark) :
    NeedsRoute setup (⟨element, settings, none⟩ :: rest) := by
  intro chain hchain w
  have hkey := ChainKey.needs_ofSettings equipped mark
  have hcut : MillChain.Equipped [⟨shape, mark, settings⟩] := by
    simpa [MillChain.Equipped] using equipped
  have hstart (key : ChainKey α) (w : Writer α) :
      Needs (fun s f => MillChain.Asks [⟨shape, mark, settings⟩] s f ∨ RouteAsks rest s f)
        (emitElements setup (some (key, [⟨shape, mark, settings⟩])) w rest) :=
    h (some (key, [⟨shape, mark, settings⟩])) hcut w
  -- What the key asks for is what the cut asks for as well.
  have hasked (s : Settings α) (f : Field) : RouteAsks (⟨element, settings, none⟩ :: rest) s f ↔
      settings.Asks [.top] s f ∨ MillChain.Asks [⟨shape, mark, settings⟩] s f ∨
        RouteAsks rest s f := by
    rw [routeAsks_cons_of_none rfl, MillChain.asks_singleton, ← or_assoc]
    simp only [Placed.needed, hkind]
    refine or_congr_left (or_iff_right_of_imp ?_).symm
    rintro ⟨rfl, hf⟩
    exact ⟨rfl, by simp [List.mem_singleton.mp hf]⟩
  rw [emitElements]
  simp only [hkind]
  cases chain with
  | none =>
    refine (hkey.bind fun key => hstart key w).congr fun s f _ => ?_
    simp [hasked, OpenChain.cuts, MillChain.Asks]
  | some shared =>
    obtain ⟨shared, cuts⟩ := shared
    have hnext (key : ChainKey α) :
        Needs (fun s f => cuts.Asks s f ∨ MillChain.Asks [⟨shape, mark, settings⟩] s f ∨
            RouteAsks rest s f)
          (if key == shared then
            emitElements setup (some (shared, cuts ++ [⟨shape, mark, settings⟩])) w rest
          else do
            let w ← closeChain (some (shared, cuts)) w setup
            emitElements setup (some (key, [⟨shape, mark, settings⟩])) w rest) := by
      split
      · have hlonger : MillChain.Equipped (cuts ++ [⟨shape, mark, settings⟩]) := by
          intro cut hmem
          exact (List.mem_append.mp hmem).elim (hchain cut) (hcut cut)
        refine (h (some (shared, _)) hlonger w).congr fun s f _ => ?_
        simp [OpenChain.cuts, MillChain.asks_append, or_assoc]
      · exact (needs_closeChain hchain w setup).bind fun w => hstart key w
    refine (hkey.bind hnext).congr fun s f _ => ?_
    rw [hasked, or_left_comm]
    rfl

private theorem NeedsRoute.placed (h : NeedsRoute setup rest) {model : Model α}
    {placement : Placement α}
    (hmodel : ∀ w, Needs model.Asks (emit (setup.nested placement) w model))
    {start stop : Point α} {target : PathName} (hkind : element.kind = .subPath start stop target) :
    NeedsRoute setup (⟨element, settings, some (model, placement)⟩ :: rest) := by
  intro chain hchain w
  rw [emitElements]
  simp only [hkind]
  refine ((needs_closeChain hchain w setup).bind fun w =>
    (hmodel (w.comment ("sub-path " ++ model.name.text))).bind h.closed).congr fun s f _ => ?_
  simp [routeAsks_cons, Placed.needed, hkind, Settings.Asks]

private theorem NeedsRoute.single (h : NeedsRoute setup rest) (equipped : settings.Equipped)
    (other : ∀ shape mark, element.kind ≠ .cut shape mark)
    (here : ∀ start stop target, element.kind ≠ .subPath start stop target) :
    NeedsRoute setup (⟨element, settings, none⟩ :: rest) := by
  intro chain hchain w
  have hsingle (w : Writer α) :=
    needs_emitSingle (p := ⟨element, settings, none⟩) equipped other w setup
  rw [emitElements]
  split
  · next shape mark hkind => exact absurd hkind (other shape mark)
  · next start stop target hkind => exact absurd hkind (here start stop target)
  · refine ((needs_closeChain hchain w setup).bind fun w =>
      (hsingle w).bind h.closed).congr fun s f _ => ?_
    rw [routeAsks_cons_of_none rfl]

end Route

mutual

theorem needs_emit : (m : Model α) → m.Equipped → (setup : Setup α) → (w : Writer α) →
    Needs m.Asks (emit setup w m)
  | ⟨name, settings, start, stop, elements, probes⟩, h, setup, w => by
    have helements : ∀ p ∈ elements, p.Equipped ∧
        ∀ sub t, p.sub = some (sub, t) → sub.Equipped := by
      intro p hp
      refine ⟨h p (hasElement_iff.mpr (Or.inl hp)), fun sub t hplaces q hq => ?_⟩
      exact h q (hasElement_iff.mpr (Or.inr ⟨p, hp, sub, t, hplaces, hq⟩))
    refine ((needs_elements elements helements setup).closed w).congr fun s f _ => ?_
    rw [asks_iff]

private theorem needs_elements : (elements : List (Placed α (Model α))) →
    (∀ p ∈ elements, p.Equipped ∧ ∀ sub t, p.sub = some (sub, t) → sub.Equipped) →
    (setup : Setup α) → NeedsRoute setup elements
  | [], _, _ => needsRoute_nil
  | ⟨element, settings, none⟩ :: rest, h, setup => by
    obtain ⟨hhere, -⟩ := h _ List.mem_cons_self
    have hrest := needs_elements rest (fun p hp => h p (List.mem_cons_of_mem _ hp)) setup
    by_cases hcut : ∃ shape mark, element.kind = .cut shape mark
    · obtain ⟨shape, mark, hkind⟩ := hcut
      exact hrest.cut hhere.settings hkind
    · refine hrest.single hhere.settings (fun shape mark hkind => hcut ⟨shape, mark, hkind⟩) ?_
      intro start stop target hkind
      cases hhere.sub.mpr ⟨target, start, stop, hkind⟩
  | ⟨element, settings, some (model, placement)⟩ :: rest, h, setup => by
    obtain ⟨hhere, hinner⟩ := h _ List.mem_cons_self
    have hrest := needs_elements rest (fun p hp => h p (List.mem_cons_of_mem _ hp)) setup
    obtain ⟨target, start, stop, hkind⟩ := hhere.sub.mp rfl
    exact hrest.placed (needs_emit model (hinner model placement rfl) (setup.nested placement)) hkind

end

end Model

namespace Build

variable [Scalar α]

private theorem equipped_settingsOf {scope : Scope α} (base : scope.base.Equipped) (e : Element α) :
    (settingsOf scope e).1.Equipped := by
  have houter (levels : List Level) (s : Settings α) (hs : s.Equipped) :
      (levels.foldl (fun s level => s.push? (scope.level? level)) s).Equipped := by
    induction levels generalizing s with
    | nil => exact hs
    | cons level levels ih => exact ih _ (hs.push? _)
  have hscope : (scope.outer e).Equipped := houter e.levels scope.base base
  unfold settingsOf
  split
  · exact hscope.push _
  · exact hscope.push _

private theorem equipped_of_resolved {scope : Scope α} (base : scope.base.Equipped) {e : Element α}
    {outcome : Option (Model α)} {p : Placed α (Model α)} (h : resolved scope e outcome = some p) :
    p.Equipped := by
  unfold resolved at h
  dsimp only at h
  split at h
  · next start stop target hkind =>
    obtain ⟨model, -, hfits⟩ := Option.bind_eq_some_iff.mp h
    obtain ⟨t, -, rfl⟩ := Option.map_eq_some_iff.mp hfits
    exact ⟨equipped_settingsOf base e, by simp [Target, hkind]⟩
  · next hsub =>
    obtain rfl := Option.some.inj h
    refine ⟨equipped_settingsOf base e, iff_of_false (by simp) ?_⟩
    rintro ⟨name, start, stop, hkind⟩
    exact hsub start stop name hkind

private theorem HasModel.equipped {lib : Library α} {key : ModelKey} {m : Model α}
    (h : HasModel lib key m) : m.settings.Equipped ∧ m.Equipped := by
  have hroute {key : ModelKey} {m : Model α} (h : HasModel lib key m) :
      m.settings.Equipped ∧ ∀ p ∈ m.elements, p.Equipped := by
    obtain ⟨n, hn⟩ := h
    cases n with
    | zero => cases hn
    | succ n =>
      obtain ⟨layer, start, stop, -, -, hsettings, helements⟩ := exists_layer_of_expand_succ hn
      have hbase : (scopeOf lib.defaults layer key.bindings).1.base.Equipped :=
        (Settings.equipped_ofDefaults lib.defaults).push _
      refine ⟨hsettings ▸ hbase, fun p hp => ?_⟩
      obtain ⟨e, -, he⟩ := helements p hp
      exact equipped_of_resolved hbase he
  refine ⟨(hroute h).1, ?_⟩
  rintro p ⟨outer, hwithin, hp⟩
  obtain ⟨k, -, houter⟩ := h.of_within hwithin
  exact (hroute houter).2 p hp

end Build

end Toolpath
