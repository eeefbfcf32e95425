import Mathlib.Tactic.Tauto
import Toolpath.Params.Settings

/-!
What a step asks for. A step that writes moves reads parameters, and it fails exactly if one of
those that it asks for has no value, and then for such a one. `Needs` says which these are; it is
proved once for every step, from the steps that it is made of.
-/

set_option autoImplicit false

namespace Toolpath

variable {α : Type}

/-- A step that asks for some parameters of some settings. It gives no result if one of them has no
value, and fails for no other reason. -/
structure Needs {β : Type} (asked : Settings α → Field → Prop) (step : Except (EmitError α) β) :
    Prop where
  of_ok : ∀ b, step = .ok b → ∀ s f, asked s f → (s.get? f).isSome = true
  of_error : ∀ e, step = .error e →
    ∃ s f, asked s f ∧ s.get? f = none ∧ e = .unset f s.context

def Settings.Asks (s : Settings α) (fields : List Field) (t : Settings α) (f : Field) : Prop :=
  t = s ∧ f ∈ fields

namespace Needs

variable {β γ : Type} {asked later : Settings α → Field → Prop} {s : Settings α}

theorem ok_of_not (h : ∀ t f, ¬ asked t f) (b : β) : Needs asked (.ok b) where
  of_ok _ _ t f hasked := absurd hasked (h t f)
  of_error _ he := by cases he

theorem ok (b : β) : Needs (s.Asks []) (.ok b) :=
  ok_of_not (fun _ _ h => List.not_mem_nil h.2) b

theorem require (s : Settings α) (f : Field) : Needs (s.Asks [f]) (s.require f) := by
  unfold Settings.require
  cases hvalue : s.get? f with
  | some value =>
    refine ⟨?_, fun e he => by cases he⟩
    rintro _ - _ g ⟨rfl, hg⟩
    rw [List.mem_singleton.mp hg, hvalue, Option.isSome_some]
  | none =>
    refine ⟨fun b hb => (by cases hb), fun e he => ?_⟩
    exact ⟨s, f, ⟨rfl, List.mem_singleton.mpr rfl⟩, hvalue, (Except.error.inj he).symm⟩

theorem bind {step : Except (EmitError α) β} {next : β → Except (EmitError α) γ}
    (h : Needs asked step) (k : ∀ b, Needs later (next b)) :
    Needs (fun t f => asked t f ∨ later t f) (step >>= next) := by
  cases step with
  | error e =>
    refine ⟨fun c hc => (by cases hc), fun e' he => ?_⟩
    obtain ⟨t, f, hasked, hunset, herror⟩ := h.of_error e rfl
    exact ⟨t, f, Or.inl hasked, hunset, (Except.error.inj he).symm.trans herror⟩
  | ok b =>
    refine ⟨fun c hc t f hasked => ?_, fun e he => ?_⟩
    · exact hasked.elim (h.of_ok b rfl t f) ((k b).of_ok c hc t f)
    · obtain ⟨t, f, hasked, hunset, herror⟩ := (k b).of_error e he
      exact ⟨t, f, Or.inr hasked, hunset, herror⟩

theorem congr {step : Except (EmitError α) β} (h : Needs asked step)
    (same : ∀ t f, t.get? f = none → (asked t f ↔ later t f)) : Needs later step where
  of_ok b hb t f hlater := by
    refine Option.isSome_iff_ne_none.mpr fun hunset => ?_
    have hset := h.of_ok b hb t f ((same t f hunset).mpr hlater)
    simp [hunset] at hset
  of_error e he := by
    obtain ⟨t, f, hasked, hunset, herror⟩ := h.of_error e he
    exact ⟨t, f, (same t f hunset).mp hasked, hunset, herror⟩

/-- Steps for the same settings ask one after the other. -/
theorem bind_asks {step : Except (EmitError α) β} {next : β → Except (EmitError α) γ}
    {first second : List Field} (h : Needs (s.Asks first) step)
    (k : ∀ b, Needs (s.Asks second) (next b)) : Needs (s.Asks (first ++ second)) (step >>= next) :=
  (h.bind k).congr fun t f _ => by
    simp only [Settings.Asks, List.mem_append]
    tauto

theorem bind_ok {step : Except (EmitError α) β} {next : β → Except (EmitError α) γ}
    (h : Needs asked step) (k : ∀ b, ∃ c, next b = .ok c) : Needs asked (step >>= next) := by
  have hnext (b : β) : Needs (fun _ _ => False) (next b) := by
    obtain ⟨c, hc⟩ := k b
    rw [hc]
    exact ok_of_not (fun _ _ h => h) c
  exact (h.bind hnext).congr fun t f _ => by rw [or_false]

private theorem require_of_isSome {f : Field} (h : (s.get? f).isSome = true) :
    Needs (s.Asks []) (s.require f) :=
  (require s f).congr fun t g hunset => by
    refine iff_of_false ?_ fun hg => List.not_mem_nil hg.2
    rintro ⟨rfl, hg⟩
    rw [List.mem_singleton.mp hg] at hunset
    simp [hunset] at h

theorem exists_ok {step : Except (EmitError α) β} (h : Needs (s.Asks []) step) :
    ∃ b, step = .ok b := by
  cases hstep : step with
  | ok b => exact ⟨b, rfl⟩
  | error e =>
    obtain ⟨t, f, hasked, -⟩ := h.of_error e hstep
    exact absurd hasked.2 List.not_mem_nil

end Needs

namespace Settings

def Equipped (s : Settings α) : Prop :=
  ∀ f ∈ [Field.feedRate, .sweepRate, .sweepHeight, .bitDiameter], (s.get? f).isSome = true

theorem equipped_ofDefaults (d : Defaults α) : (ofDefaults d).Equipped := by
  intro f hf
  simp only [List.mem_cons, List.not_mem_nil, or_false] at hf
  rcases hf with rfl | rfl | rfl | rfl <;> rfl

namespace Equipped

variable {s : Settings α}

theorem push (h : s.Equipped) (o : Overlay α) : (s.push o).Equipped := by
  intro f hf
  have hset := h f hf
  simp only [get?, Settings.push, List.findSome?_cons]
  split
  · rfl
  · exact hset

theorem push? (h : s.Equipped) (o : Option (Overlay α)) : (s.push? o).Equipped := by
  cases o with
  | none => exact h
  | some o => exact h.push o

theorem require (h : s.Equipped) {f : Field}
    (hf : f ∈ [Field.feedRate, .sweepRate, .sweepHeight, .bitDiameter]) :
    Needs (s.Asks []) (s.require f) :=
  .require_of_isSome (h f hf)

theorem feeds (h : s.Equipped) : Needs (s.Asks []) s.feeds := by
  have hfeed : Needs (s.Asks []) (s.require .feedRate) := h.require (by simp)
  have hplunge : Needs (s.Asks []) s.plungeRate := by
    unfold Settings.plungeRate
    split
    · exact .ok _
    · exact hfeed
  exact hfeed.bind_asks fun _ => hplunge.bind_asks fun _ => .ok _

end Equipped

end Settings

end Toolpath
