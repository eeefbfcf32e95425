import Toolpath.Proofs.Builder.Settings
import Toolpath.Proofs.Model.Tasks

/-!
Where the tasks of a path come from. The settings of every task are those of elements on the route
of the path or of a path placed in it, at any depth, and its comments name paths that are placed
there.
-/

set_option autoImplicit false

namespace Toolpath.Model

variable {α : Type}

theorem Within.trans {a b c : Model α} (h : a.Within b) (k : b.Within c) : a.Within c := by
  induction k with
  | self => exact h
  | placed element places _ ih => exact .placed element places ih

/-- An element on the route of a model or of one placed in it. -/
def HasElement (m : Model α) (p : Placed α (Model α)) : Prop :=
  ∃ outer : Model α, outer.Within m ∧ p ∈ outer.elements

theorem HasElement.placed {m sub : Model α} {p : Placed α (Model α)} {t : Placement α}
    (element : p ∈ m.elements) (places : p.sub = some (sub, t)) {q : Placed α (Model α)}
    (h : sub.HasElement q) : m.HasElement q := by
  obtain ⟨outer, hwithin, hq⟩ := h
  exact ⟨outer, .placed element places hwithin, hq⟩

theorem hasElement_iff {m : Model α} {p : Placed α (Model α)} :
    m.HasElement p ↔
      p ∈ m.elements ∨ ∃ q ∈ m.elements, ∃ sub t, q.sub = some (sub, t) ∧ sub.HasElement p := by
  constructor
  · rintro ⟨outer, hwithin, hp⟩
    cases hwithin with
    | self => exact Or.inl hp
    | placed element places within => exact Or.inr ⟨_, element, _, _, places, outer, within, hp⟩
  · rintro (hp | ⟨q, hq, sub, t, hplaces, hp⟩)
    · exact ⟨m, .self m, hp⟩
    · exact hp.placed hq hplaces

theorem forall_hasElement {m : Model α} {P : Placed α (Model α) → Prop}
    (h : ∀ p ∈ m.elements, P p ∧ ∀ sub t, p.sub = some (sub, t) → ∀ q, sub.HasElement q → P q) :
    ∀ p, m.HasElement p → P p := by
  intro p hp
  rcases hasElement_iff.mp hp with hp | ⟨q, hq, sub, t, hplaces, hp⟩
  · exact (h p hp).1
  · exact (h q hq).2 sub t hplaces p hp

def Task.From (m : Model α) : Task α → Prop
  | .comment settings text => ∃ p sub t, m.HasElement p ∧ p.settings = settings ∧
      p.sub = some (sub, t) ∧ text = "sub-path " ++ sub.name.text
  | .single _ element settings => ∃ p, m.HasElement p ∧ p.settings = settings ∧ p.element = element
  | .chain _ cuts => ∀ cut ∈ cuts, ∃ p, m.HasElement p ∧ p.settings = cut.settings

private theorem Task.From.placed {m sub : Model α} {p : Placed α (Model α)} {t : Placement α}
    (element : p ∈ m.elements) (places : p.sub = some (sub, t)) {task : Task α}
    (h : task.From sub) : task.From m := by
  cases task with
  | comment settings text =>
    obtain ⟨q, inner, t', hq, hrest⟩ := h
    exact ⟨q, inner, t', hq.placed element places, hrest⟩
  | single setup e settings =>
    obtain ⟨q, hq, hrest⟩ := h
    exact ⟨q, hq.placed element places, hrest⟩
  | chain setup cuts =>
    intro cut hcut
    obtain ⟨q, hq, hrest⟩ := h cut hcut
    exact ⟨q, hq.placed element places, hrest⟩

variable [Scalar α] {setup : Setup α}

omit [Scalar α] in
private theorem from_of_mem_closing {m : Model α} {chain : OpenChain α}
    (h : ∀ key cuts, chain = some (key, cuts) → (Task.chain setup cuts).From m) :
    ∀ t ∈ closing setup chain, t.From m := by
  cases chain with
  | none => simp [closing]
  | some shared => simpa [closing] using h shared.1 shared.2 rfl

mutual

theorem from_of_mem_tasks : (m : Model α) → {setup : Setup α} → {ts : List (Task α)} →
    tasks setup m = .ok ts → ∀ t ∈ ts, t.From m
  | ⟨name, settings, start, stop, elements, probes⟩, setup, ts, h =>
    from_of_mem_elementTasks ⟨name, settings, start, stop, elements, probes⟩ elements
      (fun _ hp => hp) (by simp) h

private theorem from_of_mem_elementTasks (m : Model α) : (elements : List (Placed α (Model α))) →
    {setup : Setup α} → {chain : OpenChain α} → {ts : List (Task α)} →
    (∀ p ∈ elements, p ∈ m.elements) →
    (∀ key cuts, chain = some (key, cuts) → (Task.chain setup cuts).From m) →
    elementTasks setup chain elements = .ok ts → ∀ t ∈ ts, t.From m
  | [], setup, chain, ts, _, hchain, h => by
    rw [elementTasks] at h
    obtain rfl := Except.ok.inj h
    exact from_of_mem_closing hchain
  | ⟨element, settings, sub⟩ :: rest, setup, chain, ts, hroute, hchain, h => by
    have hhere : (⟨element, settings, sub⟩ : Placed α (Model α)) ∈ m.elements :=
      hroute _ List.mem_cons_self
    have hlater : ∀ p ∈ rest, p ∈ m.elements := fun p hp => hroute p (List.mem_cons_of_mem _ hp)
    have helement : m.HasElement ⟨element, settings, sub⟩ := ⟨m, .self m, hhere⟩
    have hclosing := from_of_mem_closing hchain
    rw [elementTasks] at h
    split at h
    · next shape mark hkind =>
      obtain ⟨key, -, h⟩ := bind_eq_ok.mp h
      have hcut : ∀ key' cuts, some (key, [⟨shape, mark, settings⟩]) = some (key', cuts) →
          (Task.chain setup cuts).From m := by
        rintro key' cuts ⟨⟩ cut hcut
        obtain rfl := List.mem_singleton.mp hcut
        exact ⟨_, helement, rfl⟩
      cases chain with
      | none => exact from_of_mem_elementTasks m rest hlater hcut h
      | some shared =>
        dsimp only at h
        split at h
        · refine from_of_mem_elementTasks m rest hlater ?_ h
          rintro key' cuts ⟨⟩ cut hmem
          rcases List.mem_append.mp hmem with hmem | hmem
          · exact hchain _ _ rfl cut hmem
          · obtain rfl := List.mem_singleton.mp hmem
            exact ⟨_, helement, rfl⟩
        · obtain ⟨later, hts, h⟩ := bind_eq_ok.mp h
          obtain rfl := Except.ok.inj h
          have hrest := from_of_mem_elementTasks m rest hlater hcut hts
          intro t ht
          exact (List.mem_append.mp ht).elim (hclosing t) (hrest t)
    · cases sub with
      | none => cases h
      | some placed =>
        obtain ⟨model, placement⟩ := placed
        obtain ⟨inner, hinner, h⟩ := bind_eq_ok.mp h
        obtain ⟨later, hts, h⟩ := bind_eq_ok.mp h
        obtain rfl := Except.ok.inj h
        have hnested := from_of_mem_tasks model hinner
        have hrest := from_of_mem_elementTasks m rest hlater (by simp) hts
        intro t ht
        simp only [List.mem_append, List.mem_cons] at ht
        rcases ht with ht | rfl | ht | ht
        · exact hclosing t ht
        · exact ⟨_, model, placement, helement, rfl, rfl, rfl⟩
        · exact (hnested t ht).placed hhere rfl
        · exact hrest t ht
    · obtain ⟨later, hts, h⟩ := bind_eq_ok.mp h
      obtain rfl := Except.ok.inj h
      have hrest := from_of_mem_elementTasks m rest hlater (by simp) hts
      intro t ht
      simp only [List.mem_append, List.mem_cons] at ht
      rcases ht with ht | rfl | ht
      · exact hclosing t ht
      · exact ⟨_, helement, rfl, rfl⟩
      · exact hrest t ht

end

private theorem subset_of_elementTasks_cons {chain : OpenChain α} {p : Placed α (Model α)}
    {rest : List (Placed α (Model α))} {ts : List (Task α)}
    (h : elementTasks setup chain (p :: rest) = .ok ts) :
    (∃ chain later, elementTasks setup chain rest = .ok later ∧ later ⊆ ts) ∧
      ∀ start stop target, p.element.kind = .subPath start stop target →
        ∀ sub t, p.sub = some (sub, t) →
          .comment p.settings ("sub-path " ++ sub.name.text) ∈ ts ∧
            ∃ inner, tasks (setup.nested t) sub = .ok inner ∧ inner ⊆ ts := by
  obtain ⟨element, settings, sub⟩ := p
  rw [elementTasks] at h
  split at h
  · next shape mark hkind =>
    obtain ⟨key, -, h⟩ := bind_eq_ok.mp h
    refine ⟨?_, fun _ _ _ hsub => by simp [hkind] at hsub⟩
    cases chain with
    | none => exact ⟨_, ts, h, List.Subset.refl _⟩
    | some shared =>
      dsimp only at h
      split at h
      · exact ⟨_, ts, h, List.Subset.refl _⟩
      · obtain ⟨later, hlater, h⟩ := bind_eq_ok.mp h
        obtain rfl := Except.ok.inj h
        exact ⟨_, later, hlater, List.subset_append_right _ _⟩
  · cases sub with
    | none => cases h
    | some placed =>
      obtain ⟨model, placement⟩ := placed
      obtain ⟨inner, hinner, h⟩ := bind_eq_ok.mp h
      obtain ⟨later, hlater, h⟩ := bind_eq_ok.mp h
      obtain rfl := Except.ok.inj h
      refine ⟨⟨_, later, hlater, fun t ht => by simp [ht]⟩, ?_⟩
      rintro _ _ _ - sub t ⟨⟩
      exact ⟨by simp, inner, hinner, fun t ht => by simp [ht]⟩
  · next hcut hsub =>
    obtain ⟨later, hlater, h⟩ := bind_eq_ok.mp h
    obtain rfl := Except.ok.inj h
    refine ⟨⟨_, later, hlater, fun t ht => by simp [ht]⟩, ?_⟩
    intro start stop target hkind
    exact absurd hkind (hsub start stop target)

theorem subset_of_tasks {m : Model α} {ts : List (Task α)} (h : tasks setup m = .ok ts)
    {p : Placed α (Model α)} (element : p ∈ m.elements) {start stop : Point α} {target : PathName}
    (kind : p.element.kind = .subPath start stop target) {sub : Model α} {t : Placement α}
    (places : p.sub = some (sub, t)) :
    .comment p.settings ("sub-path " ++ sub.name.text) ∈ ts ∧
      ∃ inner, tasks (setup.nested t) sub = .ok inner ∧ inner ⊆ ts := by
  obtain ⟨name, settings, first, last, elements, probes⟩ := m
  have hroute (elements : List (Placed α (Model α))) : ∀ (chain : OpenChain α)
      (ts : List (Task α)), elementTasks setup chain elements = .ok ts → p ∈ elements →
        .comment p.settings ("sub-path " ++ sub.name.text) ∈ ts ∧
          ∃ inner, tasks (setup.nested t) sub = .ok inner ∧ inner ⊆ ts := by
    induction elements with
    | nil => simp
    | cons q rest ih =>
      intro chain ts h hp
      obtain ⟨⟨chain', later, hlater, hsub⟩, hplaced⟩ := subset_of_elementTasks_cons h
      rcases List.mem_cons.mp hp with rfl | hp
      · exact hplaced start stop target kind sub t places
      · obtain ⟨hcomment, inner, hinner, hsubset⟩ := ih chain' later hlater hp
        exact ⟨hsub hcomment, inner, hinner, List.Subset.trans hsubset hsub⟩
  exact hroute elements none ts h element

end Toolpath.Model
