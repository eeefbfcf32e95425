import Toolpath.Proofs.Route.DrawingOrder
import Toolpath.Proofs.Scalar.Zeros

/-!
Equal elements of a drawing. Elements are compared field by field, so two that are equal may differ
in the signs of zeros and in the spelling of a placed path. The walk of a route does not see through
this.
-/

set_option autoImplicit false

namespace Toolpath

variable {α : Type}

section Fields

variable [BEq α]

private theorem Point.beq_iff (p q : Point α) :
    (p == q) = true ↔ (p.x == q.x) = true ∧ (p.y == q.y) = true := Bool.and_eq_true_iff

private theorem Line.beq_iff (l m : Line α) :
    (l == m) = true ↔ (l.start == m.start) = true ∧ (l.stop == m.stop) = true :=
  Bool.and_eq_true_iff

private theorem Arc.beq_iff (a b : Arc α) :
    (a == b) = true ↔ (a.center == b.center) = true ∧ (a.radius == b.radius) = true ∧
      (a.startAngle == b.startAngle) = true ∧ (a.endAngle == b.endAngle) = true ∧
      a.ccw = b.ccw := by
  have hfields : (a == b) = (a.center == b.center && (a.radius == b.radius &&
      (a.startAngle == b.startAngle && (a.endAngle == b.endAngle && a.ccw == b.ccw)))) := rfl
  simp [hfields]

inductive Shape.Equal : Shape α → Shape α → Prop
  | line {l m : Line α} (lines : (l == m) = true) : Equal (.line l) (.line m)
  | arc {a b : Arc α} (arcs : (a == b) = true) : Equal (.arc a) (.arc b)

private theorem Shape.beq_iff (s t : Shape α) : (s == t) = true ↔ s.Equal t := by
  constructor
  · intro h
    cases s with
    | line l => cases t with
      | line m => exact .line h
      | arc b => cases h
    | arc a => cases t with
      | line m => cases h
      | arc b => exact .arc h
  · rintro (h | h) <;> exact h

inductive ElementKind.Equal : ElementKind α → ElementKind α → Prop
  | cut {s t : Shape α} {mark : Bool} (shapes : (s == t) = true) :
    Equal (.cut s mark) (.cut t mark)
  | helix {c d : Point α} {r s : α} {mark : Bool} (centers : (c == d) = true)
    (radii : (r == s) = true) : Equal (.helix c r mark) (.helix d s mark)
  | drill {c d : Point α} {mark : Bool} (centers : (c == d) = true) :
    Equal (.drill c mark) (.drill d mark)
  | sweep {p q r s : Point α} (starts : (p == r) = true) (stops : (q == s) = true) :
    Equal (.sweep p q) (.sweep r s)
  | backSweep {p q r s : Point α} (starts : (p == r) = true) (stops : (q == s) = true) :
    Equal (.backSweep p q) (.backSweep r s)
  | subPath {p q r s : Point α} {target other : PathName} (starts : (p == r) = true)
    (stops : (q == s) = true) (targets : (target == other) = true) :
    Equal (.subPath p q target) (.subPath r s other)
  | probe {p q : Point α} (positions : (p == q) = true) : Equal (.probe p) (.probe q)

private theorem ElementKind.beq_iff (k l : ElementKind α) : (k == l) = true ↔ k.Equal l := by
  constructor
  · intro h
    -- Two kinds that are built in different ways are never equal.
    cases k <;> cases l <;> try cases h
    case cut.cut =>
      obtain ⟨hshapes, hmarks⟩ := Bool.and_eq_true_iff.mp h
      obtain rfl := eq_of_beq hmarks
      exact .cut hshapes
    case helix.helix =>
      obtain ⟨hcenters, h⟩ := Bool.and_eq_true_iff.mp h
      obtain ⟨hradii, hmarks⟩ := Bool.and_eq_true_iff.mp h
      obtain rfl := eq_of_beq hmarks
      exact .helix hcenters hradii
    case drill.drill =>
      obtain ⟨hcenters, hmarks⟩ := Bool.and_eq_true_iff.mp h
      obtain rfl := eq_of_beq hmarks
      exact .drill hcenters
    case sweep.sweep =>
      obtain ⟨hstarts, hstops⟩ := Bool.and_eq_true_iff.mp h
      exact .sweep hstarts hstops
    case backSweep.backSweep =>
      obtain ⟨hstarts, hstops⟩ := Bool.and_eq_true_iff.mp h
      exact .backSweep hstarts hstops
    case subPath.subPath =>
      obtain ⟨hstarts, h⟩ := Bool.and_eq_true_iff.mp h
      obtain ⟨hstops, htargets⟩ := Bool.and_eq_true_iff.mp h
      exact .subPath hstarts hstops htargets
    case probe.probe => exact .probe h
  · intro h
    cases h with
    | cut h | drill h => exact Bool.and_eq_true_iff.mpr ⟨h, BEq.rfl⟩
    | helix h k =>
      exact Bool.and_eq_true_iff.mpr ⟨h, Bool.and_eq_true_iff.mpr ⟨k, BEq.rfl⟩⟩
    | sweep h k | backSweep h k => exact Bool.and_eq_true_iff.mpr ⟨h, k⟩
    | subPath h k l => exact Bool.and_eq_true_iff.mpr ⟨h, Bool.and_eq_true_iff.mpr ⟨k, l⟩⟩
    | probe h => exact h

private theorem Element.beq_iff (e f : Element α) :
    (e == f) = true ↔ e.kind.Equal f.kind ∧ e.order = f.order ∧ e.params = f.params := by
  have hfields : (e == f) = (e.kind == f.kind && (e.order == f.order && e.params == f.params)) :=
    rfl
  rw [hfields, Bool.and_eq_true_iff, Bool.and_eq_true_iff, ElementKind.beq_iff, beq_iff_eq,
    beq_iff_eq]

private theorem Shape.reversed_beq {s t : Shape α} (h : s.Equal t) :
    (s.reversed == t.reversed) = true := by
  cases h with
  | @line l m h =>
    obtain ⟨hstart, hstop⟩ := (Line.beq_iff l m).mp h
    exact (Line.beq_iff l.reversed m.reversed).mpr ⟨hstop, hstart⟩
  | @arc a b h =>
    obtain ⟨hcenter, hradius, hstart, hend, hccw⟩ := (Arc.beq_iff a b).mp h
    exact (Arc.beq_iff a.reversed b.reversed).mpr
      ⟨hcenter, hradius, hend, hstart, congrArg (!·) hccw⟩

private theorem Element.reversed_beq {e f : Element α} (h : (e == f) = true) :
    (e.reversed == f.reversed) = true := by
  obtain ⟨hkind, horder, hparams⟩ := (beq_iff e f).mp h
  refine (beq_iff _ _).mpr ⟨?_, horder, hparams⟩
  unfold reversed
  dsimp only
  generalize e.kind = k, f.kind = l at hkind
  cases hkind with
  | cut shapes => exact .cut (Shape.reversed_beq ((Shape.beq_iff _ _).mp shapes))
  | helix centers radii => exact .helix centers radii
  | drill centers => exact .drill centers
  | sweep starts stops => exact .sweep stops starts
  | backSweep starts stops => exact .backSweep stops starts
  | subPath starts stops targets => exact .subPath stops starts targets
  | probe positions => exact .probe positions

section Equivalence

variable [PartialEquivBEq α]

instance Point.partialEquivBEq : PartialEquivBEq (Point α) where
  symm {p q} h := by
    rw [beq_iff] at h ⊢
    exact ⟨BEq.symm h.1, BEq.symm h.2⟩
  trans {p q r} h k := by
    rw [beq_iff] at h k ⊢
    exact ⟨BEq.trans h.1 k.1, BEq.trans h.2 k.2⟩

instance Line.partialEquivBEq : PartialEquivBEq (Line α) where
  symm {l m} h := by
    rw [beq_iff] at h ⊢
    exact ⟨BEq.symm h.1, BEq.symm h.2⟩
  trans {l m n} h k := by
    rw [beq_iff] at h k ⊢
    exact ⟨BEq.trans h.1 k.1, BEq.trans h.2 k.2⟩

instance Arc.partialEquivBEq : PartialEquivBEq (Arc α) where
  symm {a b} h := by
    rw [beq_iff] at h ⊢
    obtain ⟨hcenter, hradius, hstart, hend, hccw⟩ := h
    exact ⟨BEq.symm hcenter, BEq.symm hradius, BEq.symm hstart, BEq.symm hend, hccw.symm⟩
  trans {a b c} h k := by
    rw [beq_iff] at h k ⊢
    obtain ⟨hcenter, hradius, hstart, hend, hccw⟩ := h
    obtain ⟨kcenter, kradius, kstart, kend, kccw⟩ := k
    exact ⟨BEq.trans hcenter kcenter, BEq.trans hradius kradius, BEq.trans hstart kstart,
      BEq.trans hend kend, hccw.trans kccw⟩

instance Shape.partialEquivBEq : PartialEquivBEq (Shape α) where
  symm {s t} h := by
    rw [beq_iff] at h ⊢
    cases h with
    | line h => exact .line (BEq.symm h)
    | arc h => exact .arc (BEq.symm h)
  trans {s t u} h k := by
    rw [beq_iff] at h k ⊢
    cases h with
    | line h => cases k with
      | line k => exact .line (BEq.trans h k)
    | arc h => cases k with
      | arc k => exact .arc (BEq.trans h k)

namespace ElementKind.Equal

variable {k l m : ElementKind α}

private theorem symm : k.Equal l → l.Equal k
  | .cut s => .cut (BEq.symm s)
  | .helix c r => .helix (BEq.symm c) (BEq.symm r)
  | .drill c => .drill (BEq.symm c)
  | .sweep p q => .sweep (BEq.symm p) (BEq.symm q)
  | .backSweep p q => .backSweep (BEq.symm p) (BEq.symm q)
  | .subPath p q t => .subPath (BEq.symm p) (BEq.symm q) (BEq.symm t)
  | .probe p => .probe (BEq.symm p)

private theorem trans : k.Equal l → l.Equal m → k.Equal m
  | .cut s, .cut s' => .cut (BEq.trans s s')
  | .helix c r, .helix c' r' => .helix (BEq.trans c c') (BEq.trans r r')
  | .drill c, .drill c' => .drill (BEq.trans c c')
  | .sweep p q, .sweep p' q' => .sweep (BEq.trans p p') (BEq.trans q q')
  | .backSweep p q, .backSweep p' q' => .backSweep (BEq.trans p p') (BEq.trans q q')
  | .subPath p q t, .subPath p' q' t' =>
    .subPath (BEq.trans p p') (BEq.trans q q') (BEq.trans t t')
  | .probe p, .probe p' => .probe (BEq.trans p p')

end ElementKind.Equal

instance Element.partialEquivBEq : PartialEquivBEq (Element α) where
  symm {e f} h := by
    rw [beq_iff] at h ⊢
    exact ⟨h.1.symm, h.2.1.symm, h.2.2.symm⟩
  trans {e f g} h k := by
    rw [beq_iff] at h k ⊢
    exact ⟨h.1.trans k.1, h.2.1.trans k.2.1, h.2.2.trans k.2.2⟩

end Equivalence

end Fields

namespace Route

variable [Scalar α] [CongruentScalar α]

open CongruentScalar in
private theorem alike_of_equated {p q : Point α} (hx : Equated p.x q.x) (hy : Equated p.y q.y) :
    p.Alike q := by
  intro r
  have hfrom : Equated (p.distance r) (q.distance r) :=
    hypot (sub hx (.inl rfl)) (sub hy (.inl rfl))
  have hto : Equated (r.distance p) (r.distance q) :=
    hypot (sub (.inl rfl) hx) (sub (.inl rfl) hy)
  exact ⟨decide_eq_decide.mpr (EquatedScalar.le_congr hfrom _),
    decide_eq_decide.mpr (EquatedScalar.le_congr hto _)⟩

private theorem alike_of_beq {p q : Point α} (h : (p == q) = true) : p.Alike q := by
  obtain ⟨hx, hy⟩ := (Point.beq_iff p q).mp h
  exact alike_of_equated (.inr hx) (.inr hy)

open CongruentScalar in
private theorem start_alike_of_beq {a b : Arc α} (h : (a == b) = true) :
    a.start.Alike b.start := by
  obtain ⟨hcenter, hradius, hstart, -, -⟩ := (Arc.beq_iff a b).mp h
  obtain ⟨hx, hy⟩ := (Point.beq_iff _ _).mp hcenter
  have hangle : Equated (Scalar.radians a.startAngle) (Scalar.radians b.startAngle) :=
    mul (.inr hstart) (.inl rfl)
  exact alike_of_equated (add (.inr hx) (mul (.inr hradius) (cos hangle)))
    (add (.inr hy) (mul (.inr hradius) (sin hangle)))

/-- The walk does not tell equal elements apart. -/
theorem congruent_equated : Congruent (Equated (β := Element α)) where
  equivalence := equivalence_equated
  start {e f} h := by
    rcases h with rfl | h
    · exact .refl _
    obtain ⟨hkind, -, -⟩ := (Element.beq_iff e f).mp h
    unfold Element.start
    generalize e.kind = k, f.kind = l at hkind
    cases hkind with
    | cut shapes =>
      cases (Shape.beq_iff _ _).mp shapes with
      | line lines => exact alike_of_beq ((Line.beq_iff _ _).mp lines).1
      | arc arcs => exact start_alike_of_beq arcs
    | helix h | drill h | sweep h | backSweep h | subPath h | probe h => exact alike_of_beq h
  reversed h := h.imp (congrArg Element.reversed) Element.reversed_beq

/-- So it is for doubles, which are equal if both are zero, whichever their signs. -/
theorem congruent_equated_doubles (hsin : (Float.sin 0.0 == Float.sin (-0.0)) = true)
    (hcos : (Float.cos 0.0 == Float.cos (-0.0)) = true) :
    Congruent (Equated (β := Element Float)) := by
  have := Binary64.congruentScalar hsin hcos
  exact congruent_equated

end Route

end Toolpath
