import Mathlib.Logic.Relation
import Toolpath.Proofs.Builder.Calls

/-!
What all calls of a builder answer. A property of the outcomes holds of every answer and of every
entry of the memo once it holds of a refusal and passes from the placed paths to the path around
them. What is proved along the events and from call to call is proved here once, in
`Answering.builds`.
-/

set_option autoImplicit false

namespace Toolpath.Build

open Relation (TransGen)

variable {α : Type}

def References (lib : Library α) (a b : PathName) : Prop :=
  ∃ layer, lib.get? a = some layer ∧ b ∈ layer.references

/-- The models that are being built lead to a key. -/
def Leads (lib : Library α) (s : BuildState α) (key : ModelKey) : Prop :=
  ∀ k ∈ s.stack, TransGen (References lib) k.name key.name

def Holds (answers : ModelKey → Option (Model α) → Prop) (s : BuildState α) : Prop :=
  ∀ entry ∈ s.memo, answers entry.1 entry.2

private theorem Leads.enter {lib : Library α} {s : BuildState α} {key placed : ModelKey}
    (h : Leads lib s key) (step : References lib key.name placed.name) :
    Leads lib (s.enter key) placed := by
  intro k hk
  rcases List.mem_append.mp hk with hk | hk
  · exact (h k hk).tail step
  · rw [List.mem_singleton.mp hk]
    exact .single step

theorem Holds.keep {answers : ModelKey → Option (Model α) → Prop} {s : BuildState α}
    {key : ModelKey} {outcome : Option (Model α)} (h : Holds answers s)
    (answer : answers key outcome) : Holds answers (s.keep key outcome) := by
  intro entry hentry
  rcases List.mem_append.mp hentry with hentry | hentry
  · exact h entry hentry
  · rw [List.mem_singleton.mp hentry]
    exact answer

theorem find?_eq_some {s : BuildState α} {key : ModelKey} {outcome : Option (Model α)}
    (h : s.find? key = some outcome) :
    ∃ kept : ModelKey, (kept, outcome) ∈ s.memo ∧ kept.same key = true := by
  obtain ⟨entry, hfind, rfl⟩ := Option.map_eq_some_iff.mp h
  have hsame := List.find?_some (p := fun entry : ModelKey × _ => entry.1.same key) hfind
  exact ⟨entry.1, List.mem_of_find?_eq_some hfind, hsame⟩

variable [Scalar α]

/-- Why every call has an answer with some property, unless something went wrong that stays
wrong. -/
structure Answering (lib : Library α) (wrong : BuildState α → Prop)
    (answers : ModelKey → Option (Model α) → Prop) : Prop where
  lasts : ∀ s s', s.problems <+: s'.problems → wrong s → wrong s'
  congr : ∀ key key' outcome, key.same key' = true → answers key outcome → answers key' outcome
  cycle : ∀ key k : ModelKey, (k.name == key.name) = true →
    TransGen (References lib) k.name key.name → answers key none
  nested : ∀ s key, nestingProblem key ∈ s.problems → wrong s ∨ answers key none
  undefined : ∀ key, lib.get? key.name = none → answers key none
  built : ∀ s key layer events outcome, lib.get? key.name = some layer →
    Constructed lib.defaults layer key.bindings events outcome →
    (∀ d, .reported d ∈ events → d ∈ s.problems) →
    (∀ k r, .placed k r ∈ events → answers k r) → wrong s ∨ answers key outcome

namespace Answering

variable {lib : Library α} {wrong : BuildState α → Prop}
  {answers : ModelKey → Option (Model α) → Prop}

private theorem call (rules : Answering lib wrong answers) {room : Nat} {key : ModelKey}
    {s s' : BuildState α} {outcome : Option (Model α)} (h : Call lib room key s outcome s')
    (leads : Leads lib s key) (holds : Holds answers s)
    (placed : ∀ n, room = n + 1 → ∀ k t, Leads lib t k → Holds answers t →
      wrong ((buildWithin lib n k).run t).2 ∨
        Holds answers ((buildWithin lib n k).run t).2 ∧
          answers k ((buildWithin lib n k).run t).1) :
    wrong s' ∨ Holds answers s' ∧ answers key outcome := by
  cases h with
  | kept found =>
    obtain ⟨kept, hmem, hsame⟩ := find?_eq_some found
    exact Or.inr ⟨holds, rules.congr kept key _ hsame (holds _ hmem)⟩
  | cycle _ building same =>
    exact Or.inr ⟨holds, rules.cycle key _ same (leads _ building)⟩
  | nested =>
    have hreported : nestingProblem key ∈ (s.report [nestingProblem key]).problems := by
      simp [BuildState.report]
    exact (rules.nested _ key hreported).imp_right fun hanswer => ⟨holds, hanswer⟩
  | undefined _ _ missing => exact Or.inr ⟨holds, rules.undefined key missing⟩
  | @built n layer events t _ _ _ left found happens constructed =>
    -- All placed paths are built while the stack ends with `key`, so it leads to each of them.
    have grows : ∀ k t, Grows t ((buildWithin lib n k).run t).2 := buildWithin_grows lib n
    have keeps : ∀ k, k.name ∈ layer.references →
        Keeps wrong (fun t => Holds answers t ∧ t.stack = (s.enter key).stack) (answers k)
          (buildWithin lib n k) := by
      rintro k hk t ⟨hholds, hstack⟩
      have hleads : Leads lib t k := by
        have hstep : References lib key.name k.name := ⟨layer, found, hk⟩
        unfold Leads
        rw [hstack]
        exact leads.enter hstep
      refine (placed n left k t hleads hholds).imp_right fun hbuilt => ?_
      exact ⟨⟨hbuilt.1, (grows k t).stack.trans hstack⟩, hbuilt.2⟩
    have lasts : ∀ s s', Grows s s' → wrong s → wrong s' :=
      fun s s' h => rules.lasts s s' h.problems
    rcases happens.keeps grows lasts (fun _ _ _ h => h) keeps ⟨holds, rfl⟩ with
      hwrong | ⟨⟨hholds, -⟩, hanswers⟩
    · exact Or.inl (rules.lasts t _ List.prefix_rfl hwrong)
    · have hreported : ∀ d, .reported d ∈ events → d ∈ (t.leave.keep key outcome).problems :=
        fun d hd => happens.mem_problems grows hd
      refine (rules.built _ key layer events outcome found constructed hreported
        hanswers).imp_right fun hanswer => ⟨?_, hanswer⟩
      exact Holds.keep (s := t.leave) hholds hanswer

theorem buildWithin (rules : Answering lib wrong answers) (room : Nat) (key : ModelKey)
    (s : BuildState α) (leads : Leads lib s key) (holds : Holds answers s) :
    wrong ((buildWithin lib room key).run s).2 ∨
      Holds answers ((buildWithin lib room key).run s).2 ∧
        answers key ((buildWithin lib room key).run s).1 :=
  buildWithin_induction lib
    (P := fun key s outcome s' => Leads lib s key → Holds answers s →
      wrong s' ∨ Holds answers s' ∧ answers key outcome)
    (fun _ _ _ _ _ call placed leads holds => rules.call call leads holds placed)
    room key s leads holds

theorem builds (rules : Answering lib wrong answers) (calls : List (PathName × Bindings)) :
    wrong ((builds lib calls).run initial).2 ∨
      Holds answers ((builds lib calls).run initial).2 ∧
        List.Forall₂ (fun call outcome => answers ⟨call.1, call.2⟩ outcome) calls
          ((builds lib calls).run initial).1 := by
  have keeps : ∀ key : ModelKey,
      Keeps wrong (fun s => Holds answers s ∧ s.stack = []) (answers key)
        (build lib key.name key.bindings) := by
    rintro key s ⟨hholds, hstack⟩
    have hleads : Leads lib s key := by simp [Leads, hstack]
    refine (rules.buildWithin _ key s hleads hholds).imp_right fun hbuilt => ?_
    exact ⟨⟨hbuilt.1, (build_grows lib key.name key.bindings s).stack.trans hstack⟩, hbuilt.2⟩
  refine (builds_keep (fun s s' h => rules.lasts s s' h.problems) keeps calls ?_).imp_right ?_
  · exact ⟨by simp [Holds, initial], rfl⟩
  · rintro ⟨⟨hholds, -⟩, hanswers⟩
    exact ⟨hholds, hanswers⟩

end Answering

end Toolpath.Build
