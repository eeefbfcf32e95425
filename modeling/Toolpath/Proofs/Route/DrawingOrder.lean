import Toolpath.Proofs.PathName.Identity
import Toolpath.Proofs.Route.Soundness
import Toolpath.Proofs.Scalar.Real

/-!
The order in which a layer was drawn. The walk goes on with the first of the least elements that
touch the place it has reached, so the order of the drawing shows only where elements that are not
equal tie. Without such ties two walks over the same bag stay in step: what they have left is one
bag, up to elements that can stand for each other.
-/

set_option autoImplicit false

namespace Toolpath

open Std (TransCmp OrientedCmp ReflCmp)

instance : TransCmp (Scalar.totalCompare : Float → Float → Ordering) :=
  inferInstanceAs (TransCmp (compareOn Binary64.rank))

instance : TransCmp (Scalar.totalCompare : ℝ → ℝ → Ordering) :=
  inferInstanceAs (TransCmp (compare : ℝ → ℝ → Ordering))

variable {α : Type} [Scalar α]

namespace Element

private theorem branchCompare_eq_compareLex :
    branchCompare (α := α) = compareLex (compareOn rank)
      (compareLex (compareOn preference) fun e f => Scalar.totalCompare e.length f.length) := rfl

instance [h : TransCmp (Scalar.totalCompare : α → α → Ordering)] :
    TransCmp (branchCompare (α := α)) := by
  have hlength : TransCmp fun e f : Element α => Scalar.totalCompare e.length f.length :=
    { eq_swap := h.eq_swap, isLE_trans := h.isLE_trans }
  rw [branchCompare_eq_compareLex]
  infer_instance

end Element

omit [Scalar α] in
/-- Elements of one kind at one place, where a placed path may be named in another spelling. -/
inductive ElementKind.Same : ElementKind α → ElementKind α → Prop
  | refl (kind : ElementKind α) : Same kind kind
  | spelled {start stop : Point α} {target other : PathName} (h : (target == other) = true) :
    Same (.subPath start stop target) (.subPath start stop other)

namespace ElementKind.Same

omit [Scalar α]

variable {k l m : ElementKind α}

private theorem symm (h : k.Same l) : l.Same k := by
  cases h with
  | refl => exact .refl _
  | spelled h => exact .spelled (BEq.symm h)

private theorem trans (hkl : k.Same l) (hlm : l.Same m) : k.Same m := by
  cases hkl with
  | refl => exact hlm
  | spelled h => cases hlm with
    | refl => exact .spelled h
    | spelled h' => exact .spelled (BEq.trans h h')

end ElementKind.Same

omit [Scalar α] in
/-- One element, where a placed path may be named in another spelling. -/
structure Element.Same (e f : Element α) : Prop where
  kind : e.kind.Same f.kind
  order : e.order = f.order
  params : e.params = f.params

omit [Scalar α] in
private theorem Element.equivalence_same : Equivalence (Same (α := α)) where
  refl e := ⟨.refl e.kind, rfl, rfl⟩
  symm h := ⟨h.kind.symm, h.order.symm, h.params.symm⟩
  trans h k := ⟨h.kind.trans k.kind, h.order.trans k.order, h.params.trans k.params⟩

/-- Two points that no point tells apart. -/
def Point.Alike (p q : Point α) : Prop :=
  ∀ r : Point α, p.coincides r = q.coincides r ∧ r.coincides p = r.coincides q

theorem Point.Alike.refl (p : Point α) : p.Alike p := fun _ => ⟨rfl, rfl⟩

namespace Route

/-- The walk comes from one place, with some elements left, to another. -/
inductive Reaches : Point α → List (Element α) → Point α → List (Element α) → Prop
  | here (p : Point α) (left : List (Element α)) : Reaches p left p left
  | on {p q : Point α} {left rest : List (Element α)} {e : Element α} {i : Nat}
    (picked : pick left p = some (e, i))
    (later : Reaches (orient e p).stop (left.eraseIdx i) q rest) : Reaches p left q rest

private theorem Reaches.subset {p q : Point α} {left rest : List (Element α)}
    (h : Reaches p left q rest) : rest ⊆ left := by
  induction h with
  | here => exact List.Subset.refl _
  | on _ _ ih => exact List.Subset.trans ih (List.eraseIdx_subset)

/-- An element that touches a place and comes after none of those that do. -/
structure Least (left : List (Element α)) (p : Point α) (e : Element α) : Prop where
  mem : e ∈ left
  touches : touches e p = true
  isLE : ∀ f ∈ left, Route.touches f p = true → (e.branchCompare f).isLE = true

/-- A notion of equal elements that the walk cannot see through: their starts are alike, and they
are equal turned round. -/
structure Congruent (same : Element α → Element α → Prop) : Prop where
  equivalence : Equivalence same
  start : ∀ {e f : Element α}, same e f → e.start.Alike f.start
  reversed : ∀ {e f : Element α}, same e f → same e.reversed f.reversed

theorem congruent_eq : Congruent (α := α) Eq where
  equivalence := eq_equivalence
  start h := h ▸ .refl _
  reversed h := congrArg Element.reversed h

private theorem congruent_same : Congruent (Element.Same (α := α)) where
  equivalence := Element.equivalence_same
  start {e f} h := by
    have hstart : e.start = f.start := by
      have hkind := h.kind
      unfold Element.start
      generalize e.kind = k, f.kind = l at hkind
      cases hkind <;> rfl
    rw [hstart]
    exact .refl _
  reversed {e f} h := by
    refine ⟨?_, h.order, h.params⟩
    have hkind := h.kind
    unfold Element.reversed
    dsimp only
    generalize e.kind = k, f.kind = l at hkind
    cases hkind with
    | refl => exact .refl _
    | spelled h => exact .spelled h

namespace Congruent

variable {same : Element α → Element α → Prop} (h : Congruent same) {e f : Element α}

include h

private theorem stop (hef : same e f) : e.stop.Alike f.stop := by
  rw [← e.start_reversed, ← f.start_reversed]
  exact h.start (h.reversed hef)

variable {p q : Point α}

private theorem touches_eq (hef : same e f) (hpq : p.Alike q) : touches e p = touches f q := by
  rw [touches, touches, (h.start hef p).1, (h.stop hef p).1, (hpq f.start).2, (hpq f.stop).2]

private theorem orient (hef : same e f) (hpq : p.Alike q) : same (orient e p) (orient f q) := by
  unfold Route.orient
  rw [(h.start hef p).1, (hpq f.start).2]
  split
  · exact hef
  · exact h.reversed hef

private theorem cursor {placed other : List (Element α)} (hpq : p.Alike q)
    (hplaced : List.Forall₂ same placed other) : (cursor p placed).Alike (cursor q other) := by
  induction hplaced generalizing p q with
  | nil => exact hpq
  | cons hef _ ih =>
    rw [cursor_cons, cursor_cons]
    exact ih (h.stop hef)

end Congruent

section Ties

variable [TransCmp (Scalar.totalCompare : α → α → Ordering)]

private theorem least_of_pick {left : List (Element α)} {p : Point α} {e : Element α} {i : Nat}
    (h : pick left p = some (e, i)) : Least left p e := by
  obtain ⟨hget, htouch⟩ := pick_eq_some h
  let asGood (a b : Element α × Nat) : Prop := (a.1.branchCompare b.1).isLE = true
  have hkeeps (b x c : Element α × Nat) (hc : better (some b) x = some c) :
      asGood c b ∧ asGood c x := by
    simp only [better, beq_iff_eq] at hc
    split at hc
    · next hlt =>
      obtain rfl := Option.some.inj hc
      exact ⟨by simp [asGood, hlt], ReflCmp.isLE_rfl⟩
    · next hnot =>
      obtain rfl := Option.some.inj hc
      refine ⟨ReflCmp.isLE_rfl, ?_⟩
      exact Ordering.isLE_iff_ne_gt.mpr fun hgt => hnot (OrientedCmp.gt_iff_lt.mp hgt)
  have hleast := selects_better.foldl_least asGood (fun _ _ => ReflCmp.isLE_rfl)
    (fun _ _ _ _ _ _ => TransCmp.isLE_trans) (fun b _ x _ c => hkeeps b x c) h
  refine ⟨List.mem_of_getElem? hget, htouch, ?_⟩
  intro f hf htouches
  obtain ⟨j, hj⟩ := List.getElem?_of_mem hf
  have hzip : (f, j) ∈ left.zipIdx := List.mem_zipIdx_iff_getElem?.mpr hj
  exact hleast (f, j) (List.mem_filter.mpr ⟨hzip, htouches⟩)

private theorem Least.compare_eq {left : List (Element α)} {p : Point α} {e f : Element α}
    (he : Least left p e) (hf : Least left p f) : e.branchCompare f = .eq :=
  OrientedCmp.isLE_antisymm (he.isLE f hf.mem hf.touches) (hf.isLE e he.mem he.touches)

variable {same : Element α → Element α → Prop}

/-- Equal elements that tie can stand for each other. -/
def Congruent.exchange (h : Congruent same) : Setoid (Element α) where
  r e f := same e f ∧ e.branchCompare f = .eq
  iseqv := {
    refl e := ⟨h.equivalence.refl e, ReflCmp.compare_self⟩
    symm hef := ⟨h.equivalence.symm hef.1, OrientedCmp.eq_symm hef.2⟩
    trans hef hfg := ⟨h.equivalence.trans hef.1 hfg.1, TransCmp.eq_trans hef.2 hfg.2⟩ }

def Congruent.SameBag (h : Congruent same) (left other : List (Element α)) : Prop :=
  (left.map (Quotient.mk h.exchange)).Perm (other.map (Quotient.mk h.exchange))

namespace Congruent

variable (h : Congruent same) {left other : List (Element α)}

private theorem SameBag.symm {h : Congruent same} (hbag : h.SameBag left other) :
    h.SameBag other left :=
  List.Perm.symm hbag

private theorem SameBag.length_eq {h : Congruent same} (hbag : h.SameBag left other) :
    left.length = other.length := by
  simpa using List.Perm.length_eq hbag

private theorem SameBag.exists_mem {h : Congruent same} (hbag : h.SameBag left other)
    {f : Element α} (hf : f ∈ other) : ∃ e ∈ left, same e f ∧ e.branchCompare f = .eq := by
  have hmem := hbag.mem_iff.mpr (List.mem_map_of_mem hf)
  obtain ⟨e, he, heq⟩ := List.mem_map.mp hmem
  exact ⟨e, he, Quotient.exact heq⟩

private theorem SameBag.eraseIdx {h : Congruent same} (hbag : h.SameBag left other)
    {e f : Element α} {i j : Nat} (he : left[i]? = some e) (hf : other[j]? = some f)
    (hef : same e f ∧ e.branchCompare f = .eq) :
    h.SameBag (left.eraseIdx i) (other.eraseIdx j) := by
  have hfront {elements : List (Element α)} {g : Element α} {k : Nat}
      (hg : elements[k]? = some g) : (g :: elements.eraseIdx k).Perm elements := by
    obtain ⟨hk, rfl⟩ := List.getElem?_eq_some_iff.mp hg
    exact List.getElem_cons_eraseIdx_perm hk
  have hleft := (hfront he).map (Quotient.mk h.exchange)
  have hother := (hfront hf).map (Quotient.mk h.exchange)
  have hall := (hleft.trans hbag).trans hother.symm
  rw [List.map_cons, List.map_cons, Quotient.sound (s := h.exchange) hef] at hall
  exact hall.cons_inv

variable {p q : Point α}

private theorem SameBag.exists_least {h : Congruent same} (hbag : h.SameBag left other)
    (hpq : p.Alike q) {f : Element α} (hf : Least other q f) :
    ∃ e, Least left p e ∧ same e f ∧ e.branchCompare f = .eq := by
  obtain ⟨e, he, hef, heq⟩ := hbag.exists_mem hf.mem
  refine ⟨e, ⟨he, (h.touches_eq hef hpq).trans hf.touches, ?_⟩, hef, heq⟩
  intro g hg htouches
  obtain ⟨g', hg', hgg, hggeq⟩ := hbag.symm.exists_mem hg
  have htouches' : touches g' q = true :=
    (h.touches_eq (h.equivalence.symm hgg) hpq).symm.trans htouches
  have hle := hf.isLE g' hg' htouches'
  rwa [TransCmp.congr_left heq, ← TransCmp.congr_right hggeq]

private theorem SameBag.pick_eq_none {h : Congruent same} (hbag : h.SameBag left other)
    (hpq : p.Alike q) (hnone : pick left p = none) : pick other q = none := by
  cases hpick : pick other q with
  | none => rfl
  | some choice =>
    obtain ⟨e, he, -⟩ := hbag.exists_least hpq (least_of_pick hpick)
    have hnot := Route.pick_eq_none hnone e he.mem
    rw [he.touches] at hnot
    cases hnot

private theorem SameBag.pick {h : Congruent same} (hbag : h.SameBag left other) (hpq : p.Alike q)
    (ties : ∀ e f, Least left p e → Least left p f → same e f) :
    Option.Rel (fun a b => same a.1 b.1 ∧ a.1.branchCompare b.1 = .eq) (pick left p)
      (pick other q) := by
  cases hpick : Route.pick left p with
  | none =>
    rw [hbag.pick_eq_none hpq hpick]
    exact .none
  | some a =>
    cases hother : Route.pick other q with
    | none =>
      have hnone := hbag.symm.pick_eq_none (fun r => ⟨(hpq r).1.symm, (hpq r).2.symm⟩) hother
      rw [hpick] at hnone
      cases hnone
    | some b =>
      have ha := least_of_pick hpick
      obtain ⟨g, hg, hgb, hgbeq⟩ := hbag.exists_least hpq (least_of_pick hother)
      exact .some ⟨h.equivalence.trans (ties a.1 g ha hg) hgb,
        TransCmp.eq_trans (ha.compare_eq hg) hgbeq⟩

private theorem walk (hbag : h.SameBag left other) (hpq : p.Alike q) (steps : Nat)
    (ties : ∀ r rest, Reaches p left r rest →
      ∀ e f, Least rest r e → Least rest r f → same e f) :
    List.Forall₂ same (walk steps p left).1 (walk steps q other).1 ∧
      (walk steps p left).2.length = (walk steps q other).2.length := by
  induction steps generalizing p q left other with
  | zero => exact ⟨.nil, hbag.length_eq⟩
  | succ steps ih =>
    have hpicked := hbag.pick hpq (ties p left (.here p left))
    rw [Route.walk, Route.walk]
    generalize hpick : Route.pick left p = choice, hother : Route.pick other q = choice'
      at hpicked ⊢
    cases hpicked with
    | none => exact ⟨.nil, hbag.length_eq⟩
    | @some a b hab =>
      obtain ⟨e, i⟩ := a
      obtain ⟨f, j⟩ := b
      have hrest := hbag.eraseIdx (pick_eq_some hpick).1 (pick_eq_some hother).1 hab
      have hturned := h.orient hab.1 hpq
      obtain ⟨hplaced, hleft⟩ := ih hrest (h.stop hturned)
        fun r rest hreach => ties r rest (.on hpick hreach)
      exact ⟨.cons hturned hplaced, hleft⟩

end Congruent

/-- The route does not depend on the order of the drawing. -/
theorem assemble_perm (h : Congruent same) {elements permuted : List (Element α)}
    (perm : permuted.Perm elements) (path : PathName) (start stop : Point α)
    (ties : ∀ p left, Reaches start (drawn elements) p left →
      ∀ e f, Least left p e → Least left p f → same e f) :
    let route := (assemble path elements start stop).1
    let other := (assemble path permuted start stop).1
    List.Forall₂ same route.elements other.elements ∧ other.complete = route.complete ∧
      other.probes = permuted.filter Element.isProbe := by
  have hdrawn : (drawn elements).Perm (drawn permuted) := (perm.filter _).symm
  have hbag : h.SameBag (drawn elements) (drawn permuted) := hdrawn.map _
  obtain ⟨hplaced, hleft⟩ := h.walk hbag (.refl start) (drawn elements).length ties
  have hcursor := (h.cursor (.refl start) hplaced stop).1
  rw [assemble_fst, assemble_fst, ← hdrawn.length_eq]
  refine ⟨hplaced, ?_, rfl⟩
  dsimp only
  rw [hcursor, isEmpty_of_length_eq hleft]

private theorem same_of_least {left rest : List (Element α)} {p q : Point α}
    (ties : ∀ e ∈ left, ∀ f ∈ left, e.branchCompare f = .eq → same e f)
    (h : Reaches p left q rest) {e f : Element α} (he : Least rest q e) (hf : Least rest q f) :
    same e f :=
  ties e (h.subset he.mem) f (h.subset hf.mem) (he.compare_eq hf)

end Ties

def placedLid (name : String) : Element Float :=
  ⟨.subPath ⟨0.0, 0.0⟩ ⟨10.0, 0.0⟩ (.ofText name), some 1, .empty⟩

/-- A path placed twice, its name in two spellings, and a hole that comes after both. -/
def twoSpellings : List (Element Float) :=
  [placedLid "lid", placedLid "LID.2", ⟨.drill ⟨0.0, 0.0⟩ false, some 2, .empty⟩]

/-- The two spellings are equal elements, so either may be drawn first: the route goes there and
back again, and ends in the hole. -/
theorem assemble_perm_twoSpellings :
    let route := (assemble (.ofText "box") twoSpellings ⟨0.0, 0.0⟩ ⟨0.0, 0.0⟩).1
    let other := (assemble (.ofText "box") twoSpellings.reverse ⟨0.0, 0.0⟩ ⟨0.0, 0.0⟩).1
    route.complete = true ∧ route.elements.length = 3 ∧
    List.Forall₂ Element.Same route.elements other.elements ∧ other.complete = route.complete ∧
      other.probes = twoSpellings.reverse.filter Element.isProbe := by
  have hspelled : (placedLid "lid").Same (placedLid "LID.2") :=
    ⟨.spelled (by decide), rfl, rfl⟩
  have hties : ∀ e ∈ drawn twoSpellings, ∀ f ∈ drawn twoSpellings,
      e.branchCompare f = .eq → e.Same f := by
    intro e he f hf heq
    have hall : drawn twoSpellings = twoSpellings := rfl
    rw [hall, twoSpellings] at he hf
    simp only [List.mem_cons, List.not_mem_nil, or_false] at he hf
    obtain rfl | rfl | rfl := he <;> obtain rfl | rfl | rfl := hf
    case inl.inr.inl => exact hspelled
    case inr.inl.inl => exact Element.equivalence_same.symm hspelled
    all_goals first
      | exact Element.equivalence_same.refl _
      | exact absurd heq (by decide)
  refine ⟨by decide +kernel, by decide +kernel, ?_⟩
  exact assemble_perm congruent_same (List.reverse_perm twoSpellings) (.ofText "box") ⟨0.0, 0.0⟩
    ⟨0.0, 0.0⟩ fun p left hreach e f => same_of_least hties hreach

end Route

end Toolpath
