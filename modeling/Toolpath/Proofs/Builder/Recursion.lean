import Mathlib.Logic.Function.Iterate
import Toolpath.Proofs.Builder.Pairs

/-!
The builder as a recursion without a bound. A call looks at the models that are being built to tell
how deep it is, and its placed paths are built by calls of the same kind. `build_eq_call` says that
the builder is such a call, and `iterate_call` that the recursion ends: below so many calls inside
each other nothing is called any more, whatever would be called there.
-/

set_option autoImplicit false

namespace Toolpath.Build

variable {α : Type}

/-- Two steps that do the same while some models are being built, and build no more and no fewer. -/
def Alike {β : Type} (stack : List ModelKey) (x y : Build α β) : Prop :=
  ∀ s, s.stack = stack → x.run s = y.run s ∧ (y.run s).2.stack = stack

private theorem alike_iff_matches {β : Type} {stack : List ModelKey} {x y : Build α β} :
    Alike stack x y ↔ Matches (fun s t => s = t ∧ t.stack = stack) x y := by
  constructor
  · rintro h s _ ⟨rfl, hs⟩
    obtain ⟨hsame, hstack⟩ := h s hs
    exact ⟨congrArg Prod.fst hsame, congrArg Prod.snd hsame, hstack⟩
  · intro h s hs
    obtain ⟨hresult, hstate, hstack⟩ := h s s ⟨rfl, hs⟩
    exact ⟨Prod.ext hresult hstate, hstack⟩

variable [Scalar α]

private theorem construct_alike {place other : ModelKey → Build α (Option (Model α))}
    {stack : List ModelKey} (h : ∀ key, Alike stack (place key) (other key))
    (defaults : Defaults α) (layer : Layer α) (bindings : Bindings) :
    Alike stack (construct place defaults layer bindings)
      (construct other defaults layer bindings) := by
  have hreporting : Reporting fun s t : BuildState α => s = t ∧ t.stack = stack := by
    rintro ds s _ ⟨rfl, hs⟩
    exact ⟨rfl, hs⟩
  exact alike_iff_matches.mpr
    (construct_matches hreporting defaults layer bindings fun key _ => alike_iff_matches.mp (h key))

omit [Scalar α] in
def full (stack : List ModelKey) : Bool := maxNesting ≤ stack.length

/-- A call for a key, where `place` builds the placed paths. -/
def call (lib : Library α) (place : ModelKey → Build α (Option (Model α))) (key : ModelKey) :
    Build α (Option (Model α)) := do
  match ← lookup key with
  | some outcome => return outcome
  | none =>
    let stack ← inProgress
    match stack.dropWhile fun k => !(k.name == key.name) with
    | first :: later =>
      report [cycleProblem (first :: later) key]
      return none
    | [] =>
      match full stack with
      | true =>
        report [nestingProblem key]
        return none
      | false =>
        match lib.get? key.name with
        | none =>
          report [undefinedProblem key]
          return none
        | some layer =>
          let model ← during key (construct place lib.defaults layer key.bindings)
          keep key model
          return model

private theorem call_congr {lib : Library α} {place other : ModelKey → Build α (Option (Model α))}
    {key : ModelKey} {s : BuildState α}
    (h : s.stack.length < maxNesting →
      ∀ placed, Alike (s.enter key).stack (place placed) (other placed)) :
    (call lib place key).run s = (call lib other key).run s := by
  unfold call
  simp only [run_bind, run_lookup]
  cases s.find? key with
  | some outcome => rfl
  | none =>
    simp only [run_bind, run_inProgress]
    cases s.stack.dropWhile fun k => !(k.name == key.name) with
    | cons first later => rfl
    | nil =>
      cases hfull : full s.stack with
      | true => rfl
      | false =>
        cases lib.get? key.name with
        | none => rfl
        | some layer =>
          have hfree : s.stack.length < maxNesting := by simpa [full] using hfull
          have hconstruct := construct_alike (h hfree) lib.defaults layer key.bindings _ rfl
          simp only [run_bind, run_during, hconstruct.1]

private theorem run_buildWithin (lib : Library α) {room : Nat} (key : ModelKey) {s : BuildState α}
    (hroom : maxNesting - s.stack.length = room) :
    (buildWithin lib room key).run s = (call lib (buildWithin lib (room - 1)) key).run s := by
  unfold call buildWithin
  simp only [run_bind, run_lookup]
  cases s.find? key with
  | some outcome => rfl
  | none =>
    simp only [run_bind, run_inProgress]
    cases s.stack.dropWhile fun k => !(k.name == key.name) with
    | cons first later => rfl
    | nil =>
      cases room with
      | zero =>
        have hfull : full s.stack = true := decide_eq_true (by omega)
        rw [hfull]
      | succ room =>
        have hfree : full s.stack = false := decide_eq_false (by omega)
        rw [hfree]
        rfl

theorem build_eq_call (lib : Library α) (key : ModelKey) :
    build lib key.name key.bindings =
      call lib (fun placed => build lib placed.name placed.bindings) key := by
  funext s
  refine (run_buildWithin lib key rfl).trans (call_congr fun _ placed t ht => ?_)
  have hroom : maxNesting - s.stack.length - 1 = maxNesting - t.stack.length := by
    rw [ht]
    simp only [BuildState.enter, List.length_append, List.length_singleton]
    omega
  rw [hroom]
  exact ⟨rfl, (build_grows lib placed.name placed.bindings t).stack.trans ht⟩

/-- With `n` models still allowed inside each other, `n + 1` calls inside each other are enough. -/
theorem iterate_call (lib : Library α) (place : ModelKey → Build α (Option (Model α))) (n : Nat)
    (key : ModelKey) (s : BuildState α) (h : maxNesting ≤ s.stack.length + n) :
    ((call lib)^[n + 1] place key).run s = (build lib key.name key.bindings).run s := by
  induction n generalizing key s with
  | zero =>
    -- Here the call is as deep as is allowed, so what it would call does not matter.
    rw [build_eq_call]
    refine call_congr fun hfree => ?_
    exact absurd hfree (by omega)
  | succ n ih =>
    rw [build_eq_call, Function.iterate_succ_apply']
    refine call_congr fun _ placed t ht => ?_
    have hn : maxNesting ≤ t.stack.length + n := by
      rw [ht]
      simp only [BuildState.enter, List.length_append, List.length_singleton]
      omega
    refine ⟨ih placed t hn, ?_⟩
    exact (build_grows lib placed.name placed.bindings t).stack.trans ht

end Toolpath.Build
