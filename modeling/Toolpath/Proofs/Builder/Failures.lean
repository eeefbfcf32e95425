import Toolpath.Binary64
import Toolpath.Proofs.Builder.Answers

/-!
Failures of a builder. As long as no error was reported, each call gives a model and the memo keeps
models only; so what follows from a failure, be it kept in the memo or passed on from a placed path,
comes after an error.
-/

set_option autoImplicit false

namespace Toolpath.Build

variable {α : Type}

def HasError (s : BuildState α) : Prop := ∃ d ∈ s.problems, d.severity = .error

/-- The memo keeps no failure. -/
def Faultless (s : BuildState α) : Prop := Holds (fun _ outcome => outcome ≠ none) s

private theorem HasError.mono {s s' : BuildState α} (sub : s.problems ⊆ s'.problems)
    (h : HasError s) :
    HasError s' := by
  obtain ⟨d, hd, hseverity⟩ := h
  exact ⟨d, sub hd, hseverity⟩

private theorem Grows.hasError {s s' : BuildState α} (h : Grows s s') (hs : HasError s) :
    HasError s' :=
  hs.mono h.problems.subset

private theorem HasError.report (s : BuildState α) {d : Diagnostic α} (hd : d.severity = .error) :
    HasError (s.report [d]) :=
  ⟨d, by simp [BuildState.report], hd⟩

private theorem faultless_initial : Faultless (initial : BuildState α) := by
  simp [Faultless, Holds, initial]

variable [Scalar α]

private theorem Failed.hasError {place : ModelKey → Build α (Option (Model α))}
    {names : List PathName} {s s' : BuildState α} {events : List (Event α)} (h : Failed events)
    (happens : Happens place names s events s') (hplace : ∀ key s, Grows s ((place key).run s).2)
    (answered : ∀ key outcome, .placed key outcome ∈ events → outcome ≠ none) : HasError s' := by
  obtain ⟨event, hevent, hfails⟩ := h
  cases event with
  | reported d => exact ⟨d, happens.mem_problems hplace hevent, hfails⟩
  | placed key outcome => exact absurd hfails (answered key outcome hevent)

private theorem Call.keeps_faultless {lib : Library α} {room : Nat} {key : ModelKey}
    {s s' : BuildState α} {outcome : Option (Model α)} (h : Call lib room key s outcome s')
    (hs : Faultless s)
    (hplace : ∀ n, room = n + 1 → ∀ k,
      Keeps HasError Faultless (fun outcome => outcome ≠ none) (buildWithin lib n k)) :
    HasError s' ∨ Faultless s' ∧ outcome ≠ none := by
  cases h with
  | kept found =>
    obtain ⟨kept, hmem, -⟩ := find?_eq_some found
    exact Or.inr ⟨hs, hs _ hmem⟩
  | cycle | nested | undefined => exact Or.inl (.report s rfl)
  | @built n layer events t _ _ _ left _ happens constructed =>
    have grows : ∀ k t, Grows t ((buildWithin lib n k).run t).2 := buildWithin_grows lib n
    rcases happens.keeps grows (fun _ _ h => h.hasError) (fun _ _ _ h => h)
        (fun k _ => hplace n left k) hs with hwrong | ⟨hkept, hanswers⟩
    · exact Or.inl hwrong
    · by_cases hnone : outcome = none
      · have herror : HasError t := (constructed.failed hnone).hasError happens grows hanswers
        exact Or.inl herror
      · exact Or.inr ⟨Holds.keep hkept hnone, hnone⟩

private theorem buildWithin_keeps_faultless (lib : Library α) (room : Nat) (key : ModelKey) :
    Keeps HasError Faultless (fun outcome => outcome ≠ none) (buildWithin lib room key) :=
  fun s => buildWithin_induction lib
    (P := fun _ s outcome s' => Faultless s → HasError s' ∨ Faultless s' ∧ outcome ≠ none)
    (fun _ _ _ _ _ call hplace hs => call.keeps_faultless hs hplace) room key s

private theorem build_keeps_faultless (lib : Library α) (key : ModelKey) :
    Keeps HasError Faultless (fun outcome => outcome ≠ none) (build lib key.name key.bindings) :=
  fun s => buildWithin_keeps_faultless lib _ key s

theorem builds_keep_faultless (lib : Library α) (calls : List (PathName × Bindings)) :
    let after := (builds lib calls).run initial
    HasError after.2 ∨ Faultless after.2 ∧ ∀ outcome ∈ after.1, outcome ≠ none := by
  refine (builds_keep (fun _ _ h => h.hasError) (build_keeps_faultless lib) calls
    faultless_initial).imp_right fun ⟨hkept, hanswers⟩ => ⟨hkept, fun outcome houtcome => ?_⟩
  obtain ⟨_, -, hmodel⟩ := hanswers.exists_of_mem_right houtcome
  exact hmodel

/-- A builder is asked for a model by a call, whatever calls were made before, or while it
constructs a model, for a path that is placed there. -/
inductive Asked (lib : Library α) : ModelKey → BuildState α → Prop
  | called (calls : List (PathName × Bindings)) (key : ModelKey) :
      Asked lib key ((builds lib calls).run initial).2
  | placed {key placed : ModelKey} {layer : Layer α} {events : List (Event α)}
      {s t : BuildState α} (asked : Asked lib key s) (unknown : s.find? key = none)
      (found : lib.get? key.name = some layer) (drawn : placed.name ∈ layer.references)
      (happens : Happens (fun k => build lib k.name k.bindings) layer.references (s.enter key)
        events t) : Asked lib placed t

private theorem Asked.hasError_or {lib : Library α} {key : ModelKey} {s : BuildState α}
    (h : Asked lib key s) : HasError s ∨ Faultless s := by
  induction h with
  | called calls key => exact (builds_keep_faultless lib calls).imp_right And.left
  | @placed key placed layer events s t _ _ _ _ happens ih =>
    have grows : ∀ (k : ModelKey) t, Grows t ((build lib k.name k.bindings).run t).2 :=
      fun k => build_grows lib k.name k.bindings
    rcases ih with hwrong | hkept
    · exact Or.inl ((happens.grows grows).hasError hwrong)
    · exact (happens.keeps grows (fun _ _ h => h.hasError) (fun _ _ _ h => h)
        (fun k _ => build_keeps_faultless lib k) hkept).imp_right And.left

/-- A failed build is never silent. If a call gives no model, an error was reported in it or in an
earlier call, and so it is for every path that is placed, at any depth. A failure that the memo
keeps comes after an error, too. -/
theorem exists_error_of_no_model (lib : Library α) :
    (∀ calls name bindings,
      let after := (build lib name bindings).run ((builds lib calls).run initial).2
      after.1 = none → ∃ d ∈ after.2.problems, d.severity = .error) ∧
    (∀ key s, Asked lib key s →
      let after := (build lib key.name key.bindings).run s
      after.1 = none → ∃ d ∈ after.2.problems, d.severity = .error) ∧
    ∀ key s, Asked lib key s → s.find? key = some none → ∃ d ∈ s.problems, d.severity = .error := by
  have failure : ∀ key s, Asked lib key s →
      ((build lib key.name key.bindings).run s).1 = none →
        HasError ((build lib key.name key.bindings).run s).2 := by
    intro key s hasked hnone
    rcases hasked.hasError_or with hwrong | hkept
    · exact (build_grows lib key.name key.bindings s).hasError hwrong
    · exact (build_keeps_faultless lib key s hkept).resolve_right fun h => h.2 hnone
  refine ⟨fun calls name bindings => failure ⟨name, bindings⟩ _ (.called calls _), failure, ?_⟩
  intro key s hasked hfound
  obtain ⟨kept, hmem, -⟩ := find?_eq_some hfound
  exact hasked.hasError_or.resolve_right fun hkept => hkept _ hmem rfl

section Kept

open Binary64

def markless : Library Float :=
  (Library.ofLayers .standard
    [⟨.ofText "part", ∅, fun _ => none, [], []⟩,
      ⟨.ofText "whole", ∅, fun _ => none, [⟨.start, .origin⟩, ⟨.stop, .origin⟩],
        [⟨.subPath .origin .origin (.ofText "part"), none, ∅⟩]⟩]).1

/-- The failure of the inner path is kept: a later call for it reports nothing new. -/
theorem exists_error_of_kept_failure :
    let before := ((builds markless [(.ofText "whole", ∅)]).run initial).2
    let after := (build markless (.ofText "part") ∅).run before
    after.1 = none ∧ after.2.problems.length = before.problems.length ∧
      ∃ d ∈ after.2.problems, d.severity = .error := by
  have hnone : ((build markless (.ofText "part") ∅).run
      ((builds markless [(.ofText "whole", ∅)]).run initial).2).1 = none := by decide +kernel
  exact ⟨hnone, by decide +kernel,
    (exists_error_of_no_model markless).1 [(.ofText "whole", ∅)] (.ofText "part") ∅ hnone⟩

end Kept

end Toolpath.Build
