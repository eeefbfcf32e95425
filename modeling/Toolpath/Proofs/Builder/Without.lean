import Toolpath.Proofs.Builder.Library
import Toolpath.Proofs.PathName.Order

/-!
A library without the layer of one name. The layers are sorted, so taking a layer out is the same
before and after the others are added; and if the layer and the others do not place each other, the
others find the same layers, and the same of them are placed nowhere.
-/

set_option autoImplicit false

namespace Toolpath.Library

open Std (TransCmp OrientedCmp)

variable {α : Type}

/-- The layers with other names. -/
def without (lib : Library α) (name : PathName) : Library α :=
  { lib with layers := lib.layers.filter fun l => !(l.name == name) }

theorem not_beq_of_beq {a b c : PathName} (h : (a == b) = true) (hbc : (b == c) = false) :
    (a == c) = false := by
  rw [Bool.eq_false_iff] at hbc ⊢
  exact fun hac => hbc (BEq.trans (BEq.symm h) hac)

/-- The layer of a name and the other layers do not place each other. -/
structure Isolated (lib : Library α) (x : PathName) : Prop where
  others : ∀ l ∈ lib.layers, (l.name == x) = false →
    ∀ name ∈ l.references, (name == x) = false
  alone : ∀ l ∈ lib.layers, (l.name == x) = true →
    ∀ name ∈ l.references, (name == x) = true ∨ lib.get? name = none

private theorem get?_eq_none_iff {lib : Library α} {name : PathName} :
    lib.get? name = none ↔ ∀ l ∈ lib.layers, (l.name == name) = false := by
  simp [get?, List.find?_eq_none]

private theorem mem_without_iff {lib : Library α} {x : PathName} {l : Layer α} :
    l ∈ (lib.without x).layers ↔ l ∈ lib.layers ∧ (l.name == x) = false := by
  simp [without, List.mem_filter]

theorem Isolated.roots {lib : Library α} {x : PathName} (isolated : Isolated lib x) :
    lib.roots.filter (fun name => !(name == x)) = (lib.without x).roots := by
  have hnames : lib.names.filter (fun name => !(name == x)) = (lib.without x).names := by
    simp only [names, without, List.filter_map]
    rfl
  rw [Library.roots, Library.roots, ← hnames, List.filter_filter, List.filter_filter]
  refine List.filter_congr fun name hname => ?_
  obtain ⟨l, hl, rfl⟩ := List.mem_map.mp hname
  rw [Bool.and_comm]
  cases hother : l.name == x with
  | true => simp
  | false =>
    refine congrArg (fun placed => !placed && !false) ?_
    rw [Bool.eq_iff_iff, List.any_eq_true, List.any_eq_true]
    refine exists_congr fun target => and_congr_left fun hsame => ?_
    rw [List.mem_flatMap, List.mem_flatMap]
    refine exists_congr fun around => ?_
    rw [mem_without_iff, and_assoc]
    refine and_congr_right fun haround => (and_iff_right_of_imp fun htarget => ?_).symm
    -- The layer of the name places no layer that is there under another one.
    by_contra hself
    rcases isolated.alone around haround (by simpa using hself) target htarget with h | h
    · rw [not_beq_of_beq hsame hother] at h
      cases h
    · have hmissing := get?_eq_none_iff.mp h l hl
      rw [BEq.symm hsame] at hmissing
      cases hmissing

variable [Scalar α]

end Toolpath.Library
