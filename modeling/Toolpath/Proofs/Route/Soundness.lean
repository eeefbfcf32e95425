import Mathlib.Data.List.Forall2
import Mathlib.Data.List.Perm.Basic
import Toolpath.Proofs.Selection
import Toolpath.Route

/-!
What a route is made of. The walk takes every drawn element at most once, in the drawn direction or
turned round, joins each to the place that it has reached, and ends only where no element that is
left touches that place.
-/

set_option autoImplicit false

namespace Toolpath

variable {α : Type} [Scalar α]

theorem Shape.start_reversed (s : Shape α) : s.reversed.start = s.stop := by
  cases s <;> rfl

theorem Shape.stop_reversed (s : Shape α) : s.reversed.stop = s.start := by
  cases s <;> rfl

theorem Element.start_reversed (e : Element α) : e.reversed.start = e.stop := by
  obtain ⟨kind, order, params⟩ := e
  cases kind with
  | cut shape mark => exact shape.start_reversed
  | _ => rfl

omit [Scalar α] in
theorem Element.isProbe_reversed (e : Element α) : e.reversed.isProbe = e.isProbe := by
  obtain ⟨kind, order, params⟩ := e
  cases kind <;> rfl

namespace Route

omit [Scalar α] in
/-- An element as it was drawn, or turned round. -/
def Turned (drawn placed : Element α) : Prop := placed = drawn ∨ placed = drawn.reversed

/-- Every element starts at the place where the one before it ends. -/
def Contiguous : Point α → List (Element α) → Prop
  | _, [] => True
  | p, e :: rest => e.start.coincides p = true ∧ Contiguous e.stop rest

private theorem turned_orient (e : Element α) (p : Point α) : Turned e (orient e p) := by
  unfold orient
  split
  · exact Or.inl rfl
  · exact Or.inr rfl

private theorem start_orient {e : Element α} {p : Point α} (h : touches e p = true) :
    (orient e p).start.coincides p = true := by
  unfold orient
  split
  · assumption
  · next hstart =>
    rw [touches, Bool.or_eq_true] at h
    rw [e.start_reversed]
    exact h.resolve_left hstart

theorem cursor_cons (p : Point α) (e : Element α) (placed : List (Element α)) :
    cursor p (e :: placed) = cursor e.stop placed := by
  unfold cursor
  cases placed with
  | nil => rfl
  | cons f placed => rw [List.getLast?_cons_cons]; rfl

theorem selects_better : Selects (better (α := α)) where
  first _ := rfl
  later b x := by
    unfold better
    split
    · next h => cases h
    · next h =>
      cases h
      split
      · exact Or.inl rfl
      · exact Or.inr rfl

theorem pick_eq_some {elements : List (Element α)} {p : Point α} {e : Element α} {i : Nat}
    (h : pick elements p = some (e, i)) : elements[i]? = some e ∧ touches e p = true := by
  obtain ⟨hzip, htouch⟩ := List.mem_filter.mp (selects_better.mem_of_foldl h)
  exact ⟨List.mem_zipIdx_iff_getElem?.mp hzip, htouch⟩

theorem pick_eq_none {elements : List (Element α)} {p : Point α} (h : pick elements p = none) :
    ∀ e ∈ elements, touches e p = false := by
  have hempty := (selects_better.foldl_eq_none_iff _).mp h
  intro e he
  obtain ⟨i, hi⟩ := List.getElem?_of_mem he
  have hzip : (e, i) ∈ elements.zipIdx := List.mem_zipIdx_iff_getElem?.mpr hi
  simpa using List.filter_eq_nil_iff.mp hempty (e, i) hzip

/-- A walk with enough steps: what it used and what it left are the elements, what it placed is
contiguous, and no element that is left touches the end. -/
theorem walk_sound {steps : Nat} (p : Point α) {elements : List (Element α)}
    (h : elements.length ≤ steps) :
    ∃ used, (used ++ (walk steps p elements).2).Perm elements ∧
      List.Forall₂ Turned used (walk steps p elements).1 ∧
      Contiguous p (walk steps p elements).1 ∧
      ∀ e ∈ (walk steps p elements).2,
        touches e (cursor p (walk steps p elements).1) = false := by
  induction steps generalizing p elements with
  | zero =>
    have hnil : elements = [] := List.length_eq_zero_iff.mp (by omega)
    subst hnil
    exact ⟨[], .refl _, .nil, trivial, by simp [walk]⟩
  | succ steps ih =>
    cases hpick : pick elements p with
    | none =>
      have hend : walk (steps + 1) p elements = ([], elements) := by rw [walk, hpick]
      rw [hend]
      exact ⟨[], .refl _, .nil, trivial, pick_eq_none hpick⟩
    | some choice =>
      obtain ⟨e, i⟩ := choice
      obtain ⟨hget, htouch⟩ := pick_eq_some hpick
      obtain ⟨hi, hei⟩ := List.getElem?_eq_some_iff.mp hget
      have hlen : (elements.eraseIdx i).length ≤ steps := by
        have := List.length_eraseIdx_add_one hi
        omega
      obtain ⟨used, hperm, hturned, hcont, hleft⟩ := ih (orient e p).stop hlen
      have hnext : walk (steps + 1) p elements =
          (orient e p :: (walk steps (orient e p).stop (elements.eraseIdx i)).1,
            (walk steps (orient e p).stop (elements.eraseIdx i)).2) := by
        rw [walk, hpick]
      rw [hnext]
      refine ⟨e :: used, ?_, .cons (turned_orient e p) hturned, ⟨start_orient htouch, hcont⟩, ?_⟩
      · have hall : (e :: elements.eraseIdx i).Perm elements := by
          rw [← hei]
          exact List.getElem_cons_eraseIdx_perm hi
        exact (hperm.cons e).trans hall
      · intro f hf
        rw [cursor_cons]
        exact hleft f hf

omit [Scalar α] in
def drawn (elements : List (Element α)) : List (Element α) := elements.filter fun e => !e.isProbe

theorem assemble_eq (path : PathName) (elements : List (Element α)) (start stop : Point α) :
    assemble path elements start stop =
      let (placed, left) := walk (drawn elements).length start (drawn elements)
      (⟨placed, elements.filter Element.isProbe,
        (cursor start placed).coincides stop && left.isEmpty⟩,
        problems path start stop placed left) := by
  have hparts : elements.partition Element.isProbe =
      (elements.filter Element.isProbe, drawn elements) := by
    simp [List.partition_eq_filter_filter, drawn, Function.comp_def]
  simp only [assemble, hparts]

theorem assemble_fst (path : PathName) (elements : List (Element α)) (start stop : Point α) :
    (assemble path elements start stop).1 =
      let (placed, left) := walk (drawn elements).length start (drawn elements)
      ⟨placed, elements.filter Element.isProbe,
        (cursor start placed).coincides stop && left.isEmpty⟩ := by
  rw [assemble_eq]

omit [Scalar α] in
theorem isEmpty_of_length_eq {left other : List (Element α)} (h : left.length = other.length) :
    left.isEmpty = other.isEmpty := by
  rw [Bool.eq_iff_iff, List.isEmpty_iff_length_eq_zero, List.isEmpty_iff_length_eq_zero, h]

/-- The route through a bag of elements. Its probes are the probes of the bag; its elements are
drawn ones, each used once and turned where needed, and follow one another from the start; no
element that is left touches the place where it ends; and it is complete exactly when none is left
and that place is the end mark. -/
theorem assemble_sound (path : PathName) (elements : List (Element α)) (start stop : Point α) :
    let route := (assemble path elements start stop).1
    route.probes = elements.filter Element.isProbe ∧
    ∃ used left,
      (used ++ left).Perm (drawn elements) ∧
      List.Forall₂ Turned used route.elements ∧
      Contiguous start route.elements ∧
      (∀ e ∈ left, touches e (cursor start route.elements) = false) ∧
      (route.complete = true ↔
        left = [] ∧ (cursor start route.elements).coincides stop = true) := by
  rw [assemble_fst]
  obtain ⟨used, hperm, hturned, hcont, hleft⟩ :=
    walk_sound start (Nat.le_refl (drawn elements).length)
  refine ⟨rfl, used, _, hperm, hturned, hcont, hleft, ?_⟩
  rw [Bool.and_eq_true, List.isEmpty_iff, and_comm]

end Route

end Toolpath
