import Toolpath.Binary64
import Toolpath.Proofs.Builder.Acyclic
import Toolpath.Proofs.Builder.Recursion

/-!
What a builder finds, whatever it built before. An outcome is a model only if the library holds that
model for the key; and it is the model that the library holds, unless the builder refused a path
somewhere for its depth. Such a refusal depends on the call that it happens in, but what follows
from it is kept in the memo for all later calls.
-/

set_option autoImplicit false

namespace Toolpath.Build

open Relation (ReflTransGen TransGen)

variable {α : Type} [Scalar α]

/-- An outcome that is no other model than that of the library. -/
def Finds (lib : Library α) (key : ModelKey) (outcome : Option (Model α)) : Prop :=
  ∀ m, outcome = some m → HasModel lib key m

/-- An outcome that misses no model of the library. -/
def Covers (lib : Library α) (key : ModelKey) (outcome : Option (Model α)) : Prop :=
  ∀ m, HasModel lib key m → outcome = some m

/-- A path was refused for its depth. -/
def Refused (s : BuildState α) : Prop := ∃ key, nestingProblem key ∈ s.problems

private theorem exists_levels {lib : Library α} (events : List (Event α))
    (h : ∀ key r, .placed key r ∈ events → Finds lib key r) :
    ∃ n, ∀ key r, .placed key r ∈ events → Extends r (expand lib n key) := by
  induction events with
  | nil => exact ⟨0, by simp⟩
  | cons event events ih =>
    obtain ⟨n, hn⟩ := ih fun key r hmem => h key r (List.mem_cons_of_mem event hmem)
    cases event with
    | reported d =>
      refine ⟨n, fun key r hmem => ?_⟩
      exact hn key r (List.mem_of_ne_of_mem (by simp) hmem)
    | placed first outcome =>
      have hfirst : ∃ k, Extends outcome (expand lib k first) := by
        cases outcome with
        | none => exact ⟨0, by simp [Extends]⟩
        | some child =>
          obtain ⟨k, hk⟩ := h first (some child) (by simp) child rfl
          refine ⟨k, fun m hm => ?_⟩
          rw [← Option.some.inj hm, hk]
      obtain ⟨k, hk⟩ := hfirst
      refine ⟨max n k, fun key r hmem m hm => ?_⟩
      rcases List.mem_cons.mp hmem with heq | hmem
      · obtain ⟨rfl, rfl⟩ := Event.placed.inj heq
        exact extends_expand lib (Nat.le_max_right n k) key m (hk m hm)
      · exact extends_expand lib (Nat.le_max_left n k) key m (hn key r hmem m hm)

private theorem finds_none (lib : Library α) (key : ModelKey) : Finds lib key none := by
  simp [Finds]

theorem answering_finds (lib : Library α) : Answering lib (fun _ => False) (Finds lib) where
  lasts _ _ _ h := h
  congr key key' outcome same h m hm := (hasModel_congr same m).mp (h m hm)
  cycle key _ _ _ := finds_none lib key
  nested _ key _ := Or.inr (finds_none lib key)
  undefined key _ := finds_none lib key
  built s key layer events outcome found constructed _ placed := by
    refine Or.inr fun m hm => ?_
    -- The placed models were found at any time before; a common number of levels is enough.
    obtain ⟨n, hn⟩ := exists_levels events placed
    have hmodel := constructed.extends_expandLayer hn m hm
    refine ⟨n + 1, ?_⟩
    rw [expand, found]
    exact hmodel

private theorem answering_covers (lib : Library α) : Answering lib Refused (Covers lib) where
  lasts s s' h := by
    rintro ⟨key, hkey⟩
    exact ⟨key, h.subset hkey⟩
  congr key key' outcome same h m hm := h m ((hasModel_congr same m).mpr hm)
  cycle key k same reach m hm := by
    have hcycle : TransGen (References lib) key.name key.name := transGen_congr same reach
    exact absurd (hm.not_cycle hcycle) (by simp)
  -- The one rule under which a model is missed: how deep a call is says nothing about the library.
  nested s key hreported := Or.inl ⟨key, hreported⟩
  undefined key missing m hm := by
    have hdefined := hm.defined
    simp [missing] at hdefined
  built s key layer events outcome found constructed _ placed := by
    refine Or.inr ?_
    rintro m ⟨n, hn⟩
    cases n with
    | zero => cases hn
    | succ n =>
      rw [expand, found] at hn
      refine constructed.expandLayer_extends ?_ m hn
      exact fun k r hk child hchild => placed k r hk child ⟨n, hchild⟩

private theorem answers_after {lib : Library α} {wrong : BuildState α → Prop}
    {answers : ModelKey → Option (Model α) → Prop} (rules : Answering lib wrong answers)
    (calls : List (PathName × Bindings)) (name : PathName) (bindings : Bindings) :
    let after := (build lib name bindings).run ((builds lib calls).run initial).2
    wrong after.2 ∨ answers ⟨name, bindings⟩ after.1 := by
  intro after
  have hgrows : Grows ((builds lib calls).run initial).2 after.2 := build_grows lib name bindings _
  rcases rules.builds calls with hwrong | ⟨hholds, -⟩
  · exact Or.inl (rules.lasts _ _ hgrows.problems hwrong)
  · have hstack : ((builds lib calls).run initial).2.stack = [] :=
      (builds_grows lib calls initial).stack
    have hleads : Leads lib ((builds lib calls).run initial).2 ⟨name, bindings⟩ := by
      simp [Leads, hstack]
    exact (rules.buildWithin _ _ _ hleads hholds).imp_right And.right

/-- Building ends: a call is one that looks how deep it is and makes further calls of its kind, and
below more calls inside each other than the allowed depth none is made, whatever it would do. It
leaves the models that are being built as they were. And a path whose model is found, whatever was
built before, leads to defined paths only and to no path that leads back to itself. -/
theorem build_nesting (lib : Library α) (calls : List (PathName × Bindings)) (name : PathName)
    (bindings : Bindings) :
    (∀ place key, (call lib)^[maxNesting + 1] place key = build lib key.name key.bindings) ∧
    (∀ key, call lib (fun placed => build lib placed.name placed.bindings) key =
      build lib key.name key.bindings) ∧
    (∀ s, ((build lib name bindings).run s).2.stack = s.stack) ∧
    ∀ m, ((build lib name bindings).run ((builds lib calls).run initial).2).1 = some m →
      ∀ reached, ReflTransGen (References lib) name reached →
        (lib.get? reached).isSome = true ∧
        ∀ again, TransGen (References lib) reached again → (again == reached) = false := by
  refine ⟨?_, fun key => (build_eq_call lib key).symm, ?_, ?_⟩
  · intro place key
    funext s
    exact iterate_call lib place maxNesting key s (Nat.le_add_left _ _)
  · exact fun s => (build_grows lib name bindings s).stack
  · intro m hm reached hreach
    have hfinds := (answers_after (answering_finds lib) calls name bindings).resolve_left id
    -- The model that was found is the library's own, and it needs one for all that it leads to.
    obtain ⟨placed, child, rfl, hchild⟩ := (hfinds m hm).reaches hreach
    exact ⟨hchild.defined, fun again hcycle => hchild.not_cycle hcycle⟩

/-- The memo keeps what a new builder finds, unless a path was refused for its depth: if the used
builder refused none, it finds a model wherever the new one does; if the new one refused none, the
used builder finds no more; and two models that they find are the same. -/
theorem memo_transparent (lib : Library α) (calls : List (PathName × Bindings)) (name : PathName)
    (bindings : Bindings) :
    let used := (build lib name bindings).run ((builds lib calls).run initial).2
    let alone := (build lib name bindings).run initial
    (∀ m, alone.1 = some m → ¬ Refused used.2 → used.1 = some m) ∧
    (∀ m, used.1 = some m → ¬ Refused alone.2 → alone.1 = some m) ∧
    (∀ m m', used.1 = some m → alone.1 = some m' → m = m') := by
  intro used alone
  have hused : Finds lib ⟨name, bindings⟩ used.1 :=
    (answers_after (answering_finds lib) calls name bindings).resolve_left id
  have halone : Finds lib ⟨name, bindings⟩ alone.1 :=
    (answers_after (answering_finds lib) [] name bindings).resolve_left id
  refine ⟨fun m hm hfree => ?_, fun m hm hfree => ?_, fun m m' hm hm' => ?_⟩
  · have hcovers := (answers_after (answering_covers lib) calls name bindings).resolve_left hfree
    exact hcovers m (halone m hm)
  · have hcovers := (answers_after (answering_covers lib) [] name bindings).resolve_left hfree
    exact hcovers m (hused m hm)
  · exact (hused m hm).unique (halone m' hm')

section Depth

open Binary64

def numbered (k : Nat) : PathName := .ofText (toString k)

def pointLayer (k : Nat) (placed : List Nat) : Layer Float where
  name := numbered k
  params := ∅
  levelParams _ := none
  anchors := [⟨.start, .origin⟩, ⟨.stop, .origin⟩]
  elements := placed.map fun next => ⟨.subPath .origin .origin (numbered next), none, ∅⟩

/-- The paths from 0 to 32, each placed on the one before it: one too many for the allowed depth. -/
def chain : Library Float :=
  (Library.ofLayers .standard
    ((List.range 32).map (fun k => pointLayer k [k + 1]) ++ [pointLayer 32 []])).1

set_option maxRecDepth 10000 in
/-- Refusals for the depth are kept with what they keep from being built, and so are models that
were built from less deep. The path 1 is accepted by itself and refused after the path 0, and the
path 0 is refused by itself and accepted after the path 1. -/
theorem depth_depends_on_calls :
    let found (calls : List (PathName × Bindings)) (k : Nat) : Bool :=
      ((build chain (numbered k) ∅).run ((builds chain calls).run initial).2).1.isSome
    found [] 1 = true ∧ found [(numbered 0, ∅)] 1 = false ∧
      found [] 0 = false ∧ found [(numbered 1, ∅)] 0 = true := by
  decide +kernel

end Depth

end Toolpath.Build
