import Mathlib.Data.List.TakeWhile
import Toolpath.Proofs.Builder.Events
import Toolpath.Proofs.PathName.Identity

/-!
What a call of the builder does. There are five ways for a call to end, and `buildWithin_call` says
what each of them finds and leaves; the calls for placed paths stand between the state that a
construction enters and the one that it leaves. So a property of the builder is proved by induction
on the room that is left, with a case for each way, and nothing opens the builder again.
-/

set_option autoImplicit false

namespace Toolpath.Build

variable {α : Type}

section Steps

variable {β γ : Type}

theorem run_bind (x : Build α β) (f : β → Build α γ) (s : BuildState α) :
    (x >>= f).run s = (f (x.run s).1).run (x.run s).2 := rfl

theorem run_lookup (key : ModelKey) (s : BuildState α) :
    (lookup key).run s = (s.find? key, s) := rfl

theorem run_inProgress (s : BuildState α) : inProgress.run s = (s.stack, s) := rfl

theorem run_during (key : ModelKey) (step : Build α β) (s : BuildState α) :
    (during key step).run s = ((step.run (s.enter key)).1, (step.run (s.enter key)).2.leave) := rfl

end Steps

/-- No model that is being built has the path of a key. -/
def Fresh (s : BuildState α) (key : ModelKey) : Prop :=
  ∀ k ∈ s.stack, (k.name == key.name) = false

variable [Scalar α]

/-- How a call for a key may end in an outcome and a state. -/
inductive Call (lib : Library α) (room : Nat) (key : ModelKey) (s : BuildState α) :
    Option (Model α) → BuildState α → Prop
  | kept {outcome : Option (Model α)} (found : s.find? key = some outcome) :
      Call lib room key s outcome s
  | cycle {k : ModelKey} {cycle : List ModelKey} (unknown : s.find? key = none)
      (building : k ∈ s.stack) (same : (k.name == key.name) = true) :
      Call lib room key s none (s.report [cycleProblem cycle key])
  | nested (unknown : s.find? key = none) (fresh : Fresh s key) (full : room = 0) :
      Call lib room key s none (s.report [nestingProblem key])
  | undefined (unknown : s.find? key = none) (fresh : Fresh s key)
      (missing : lib.get? key.name = none) :
      Call lib room key s none (s.report [undefinedProblem key])
  | built {n : Nat} {layer : Layer α} {events : List (Event α)} {s' : BuildState α}
      {outcome : Option (Model α)} (unknown : s.find? key = none) (fresh : Fresh s key)
      (left : room = n + 1) (found : lib.get? key.name = some layer)
      (happens : Happens (buildWithin lib n) layer.references (s.enter key) events s')
      (constructed : Constructed lib.defaults layer key.bindings events outcome) :
      Call lib room key s outcome (s'.leave.keep key outcome)

private theorem buildWithin_call (lib : Library α) (room : Nat) (key : ModelKey)
    (s : BuildState α) :
    Call lib room key s ((buildWithin lib room key).run s).1
      ((buildWithin lib room key).run s).2 := by
  unfold buildWithin
  simp only [run_bind, run_lookup]
  cases hfind : s.find? key with
  | some outcome => exact .kept hfind
  | none =>
    simp only [run_bind, run_inProgress]
    cases hstack : s.stack.dropWhile fun k => !(k.name == key.name) with
    | cons first later =>
      have hsame := List.head_dropWhile_not (fun k : ModelKey => !(k.name == key.name))
        (l := s.stack) (by simp [hstack])
      have hmem : first ∈ s.stack := by
        refine (List.dropWhile_suffix fun k => !(k.name == key.name)).subset ?_
        simp [hstack]
      simp only [hstack, List.head_cons, Bool.not_eq_false'] at hsame
      exact .cycle hfind hmem hsame
    | nil =>
      have hfresh : Fresh s key := by
        intro k hk
        simpa using List.dropWhile_eq_nil_iff.mp hstack k hk
      cases room with
      | zero => exact .nested hfind hfresh rfl
      | succ n =>
        cases hlayer : lib.get? key.name with
        | none => exact .undefined hfind hfresh hlayer
        | some layer =>
          obtain ⟨events, happens, constructed⟩ :=
            construct_does (buildWithin lib n) lib.defaults layer key.bindings (s.enter key)
          exact .built hfind hfresh rfl hlayer happens constructed

/-- All calls have a property if each has it whose calls for placed paths have it. -/
theorem buildWithin_induction (lib : Library α)
    {P : ModelKey → BuildState α → Option (Model α) → BuildState α → Prop}
    (step : ∀ room key s outcome s', Call lib room key s outcome s' →
      (∀ n, room = n + 1 → ∀ k t,
        P k t ((buildWithin lib n k).run t).1 ((buildWithin lib n k).run t).2) →
      P key s outcome s')
    (room : Nat) (key : ModelKey) (s : BuildState α) :
    P key s ((buildWithin lib room key).run s).1 ((buildWithin lib room key).run s).2 := by
  induction room generalizing key s with
  | zero => exact step 0 key s _ _ (buildWithin_call lib 0 key s) (by simp)
  | succ room ih =>
    refine step (room + 1) key s _ _ (buildWithin_call lib (room + 1) key s) ?_
    rintro _ ⟨⟩
    exact ih

/-- A later state of a builder that builds the same models. -/
structure Grows (s s' : BuildState α) : Prop where
  problems : s.problems <+: s'.problems
  memo : s.memo <+: s'.memo
  stack : s'.stack = s.stack

namespace Grows

omit [Scalar α]

private theorem refl (s : BuildState α) : Grows s s := ⟨List.prefix_rfl, List.prefix_rfl, rfl⟩

private theorem trans {s t u : BuildState α} (h : Grows s t) (k : Grows t u) : Grows s u :=
  ⟨h.problems.trans k.problems, h.memo.trans k.memo, k.stack.trans h.stack⟩

private theorem report (s : BuildState α) (ds : List (Diagnostic α)) : Grows s (s.report ds) :=
  ⟨List.prefix_append _ _, List.prefix_rfl, rfl⟩

private theorem built {s s' : BuildState α} {key : ModelKey} (h : Grows (s.enter key) s')
    (outcome : Option (Model α)) : Grows s (s'.leave.keep key outcome) where
  problems := h.problems
  memo := h.memo.trans (List.prefix_append _ _)
  stack := by
    change s'.stack.dropLast = s.stack
    rw [h.stack]
    exact List.dropLast_concat

end Grows

section Invariants

variable {place : ModelKey → Build α (Option (Model α))} {names : List PathName}
  {s s' : BuildState α} {events : List (Event α)}

theorem Happens.grows (h : Happens place names s events s')
    (hplace : ∀ key s, Grows s ((place key).run s).2) : Grows s s' := by
  induction h with
  | nothing s => exact .refl s
  | reported d _ _ ih => exact (Grows.report _ [d]).trans ih
  | placed key _ _ ih => exact (hplace key _).trans ih

theorem Happens.mem_problems (h : Happens place names s events s')
    (hplace : ∀ key s, Grows s ((place key).run s).2) {d : Diagnostic α}
    (hd : .reported d ∈ events) : d ∈ s'.problems := by
  induction h with
  | nothing s => cases hd
  | reported e _ rest ih =>
    rcases List.mem_cons.mp hd with heq | hd
    · obtain rfl := Event.reported.inj heq
      exact (rest.grows hplace).problems.subset (by simp [BuildState.report])
    · exact ih hd
  | placed key _ _ ih =>
    rcases List.mem_cons.mp hd with heq | hd
    · cases heq
    · exact ih hd

/-- What a call keeps and answers, unless something went wrong that cannot be undone. -/
def Keeps (wrong kept : BuildState α → Prop) (answers : Option (Model α) → Prop)
    (call : Build α (Option (Model α))) : Prop :=
  ∀ s, kept s → wrong (call.run s).2 ∨ kept (call.run s).2 ∧ answers (call.run s).1

theorem Happens.keeps {wrong kept : BuildState α → Prop}
    {answers : ModelKey → Option (Model α) → Prop} (h : Happens place names s events s')
    (hplace : ∀ key s, Grows s ((place key).run s).2)
    (lasts : ∀ s s', Grows s s' → wrong s → wrong s')
    (report : ∀ s d, Known d → kept s → kept (s.report [d]))
    (keeps : ∀ key, key.name ∈ names → Keeps wrong kept (answers key) (place key))
    (hs : kept s) :
    wrong s' ∨ kept s' ∧ ∀ key outcome, .placed key outcome ∈ events → answers key outcome := by
  induction h with
  | nothing s => exact Or.inr ⟨hs, by simp⟩
  | reported d known _ ih =>
    refine (ih (report _ d known hs)).imp_right fun ⟨hkept, hanswers⟩ => ⟨hkept, ?_⟩
    intro key outcome hmem
    rcases List.mem_cons.mp hmem with heq | hmem
    · cases heq
    · exact hanswers key outcome hmem
  | placed key named rest ih =>
    rcases keeps key named _ hs with hwrong | ⟨hkept, hanswer⟩
    · exact Or.inl (lasts _ _ (rest.grows hplace) hwrong)
    · refine (ih hkept).imp_right fun ⟨hkept, hanswers⟩ => ⟨hkept, ?_⟩
      intro key' outcome hmem
      rcases List.mem_cons.mp hmem with heq | hmem
      · obtain ⟨rfl, rfl⟩ := Event.placed.inj heq
        exact hanswer
      · exact hanswers key' outcome hmem

end Invariants

private theorem Call.grows {lib : Library α} {room : Nat} {key : ModelKey} {s s' : BuildState α}
    {outcome : Option (Model α)} (h : Call lib room key s outcome s')
    (hplace : ∀ n, room = n + 1 → ∀ key s, Grows s ((buildWithin lib n key).run s).2) :
    Grows s s' := by
  cases h with
  | kept found => exact .refl s
  | cycle | nested | undefined => exact .report s _
  | built _ _ left _ happens => exact .built (happens.grows (hplace _ left)) _

theorem buildWithin_grows (lib : Library α) (room : Nat) (key : ModelKey) (s : BuildState α) :
    Grows s ((buildWithin lib room key).run s).2 :=
  buildWithin_induction lib (P := fun _ s _ s' => Grows s s')
    (fun _ _ _ _ _ call hplace => call.grows hplace) room key s

theorem build_grows (lib : Library α) (name : PathName) (bindings : Bindings)
    (s : BuildState α) : Grows s ((build lib name bindings).run s).2 :=
  buildWithin_grows lib _ _ s

def builds (lib : Library α) (calls : List (PathName × Bindings)) :
    Build α (List (Option (Model α))) :=
  calls.mapM fun call => build lib call.1 call.2

theorem run_builds_cons (lib : Library α) (call : PathName × Bindings)
    (calls : List (PathName × Bindings)) (s : BuildState α) :
    (builds lib (call :: calls)).run s =
      let (outcome, s) := (build lib call.1 call.2).run s
      let (outcomes, s) := (builds lib calls).run s
      (outcome :: outcomes, s) := by
  rw [builds, List.mapM_cons]
  rfl

theorem builds_grows (lib : Library α) (calls : List (PathName × Bindings))
    (s : BuildState α) : Grows s ((builds lib calls).run s).2 := by
  induction calls generalizing s with
  | nil => exact .refl s
  | cons call calls ih =>
    rw [run_builds_cons]
    exact (build_grows lib call.1 call.2 s).trans (ih _)

/-- What every call keeps and answers, a sequence of calls keeps and answers. -/
theorem builds_keep {lib : Library α} {wrong kept : BuildState α → Prop}
    {answers : ModelKey → Option (Model α) → Prop}
    (lasts : ∀ s s', Grows s s' → wrong s → wrong s')
    (keeps : ∀ key, Keeps wrong kept (answers key) (build lib key.name key.bindings))
    (calls : List (PathName × Bindings)) {s : BuildState α} (hs : kept s) :
    wrong ((builds lib calls).run s).2 ∨ kept ((builds lib calls).run s).2 ∧
      List.Forall₂ (fun call outcome => answers ⟨call.1, call.2⟩ outcome) calls
        ((builds lib calls).run s).1 := by
  induction calls generalizing s with
  | nil => exact Or.inr ⟨hs, .nil⟩
  | cons call calls ih =>
    rw [run_builds_cons]
    rcases keeps ⟨call.1, call.2⟩ s hs with hwrong | ⟨hkept, hanswer⟩
    · exact Or.inl (lasts _ _ (builds_grows lib calls _) hwrong)
    · exact (ih hkept).imp_right fun ⟨hkept, hanswers⟩ => ⟨hkept, .cons hanswer hanswers⟩

end Toolpath.Build
