import Toolpath.Proofs.Geometry.Motions
import Toolpath.Proofs.Route.Soundness

/-!
The direction in which elements were drawn. An element that is turned round touches the same places
and is as long as before, so the walk goes on with it at the same time; there it is turned to start
at the place that was reached, whichever way it was drawn. Only if both of its ends are at that
place does the walk take it as it was drawn.
-/

set_option autoImplicit false

namespace Toolpath

private theorem Shape.length_reversed (s : Shape ℝ) : s.reversed.length = s.length := by
  cases s with
  | line l => exact Point.distance_comm l.stop l.start
  | arc a =>
    show a.reversed.radius * _ = a.radius * _
    rw [Arc.sweepDegrees_reversed]
    rfl

private theorem Shape.reversed_reversed {α : Type} (s : Shape α) : s.reversed.reversed = s := by
  cases s with
  | line l => rfl
  | arc a =>
    obtain ⟨center, radius, startAngle, endAngle, ccw⟩ := a
    cases ccw <;> rfl

namespace Element

private theorem reversed_reversed {α : Type} (e : Element α) : e.reversed.reversed = e := by
  obtain ⟨kind, order, params⟩ := e
  cases kind with
  | cut shape mark => simp only [reversed, shape.reversed_reversed]
  | _ => rfl

private theorem length_reversed (e : Element ℝ) : e.reversed.length = e.length := by
  obtain ⟨kind, order, params⟩ := e
  cases kind with
  | cut shape mark => exact shape.length_reversed
  | sweep start stop => exact Point.distance_comm stop start
  | backSweep start stop => exact Point.distance_comm stop start
  | subPath start stop target => exact Point.distance_comm stop start
  | _ => rfl

private theorem preference_reversed {α : Type} (e : Element α) :
    e.reversed.preference = e.preference := by
  obtain ⟨kind, order, params⟩ := e
  cases kind <;> rfl

/-- Whether an element leads from one end to another: a line, an arc, a travel or a placed path. -/
def Leads {α : Type} (e : Element α) : Prop :=
  match e.kind with
  | .helix .. | .drill .. | .probe .. => False
  | _ => True

private theorem reversed_of_not_leads {α : Type} {e : Element α} (h : ¬ e.Leads) :
    e.reversed = e := by
  obtain ⟨kind, order, params⟩ := e
  cases kind with
  | helix | drill | probe => rfl
  | _ => exact absurd trivial h

end Element

namespace Route

def visited {α : Type} [Scalar α] (start : Point α) (placed : List (Element α)) :
    List (Point α) := start :: placed.map Element.stop

/-- An element of a drawing, left as it is or drawn backwards; in the latter case it is a hole or a
probe, or at none of some places with both ends. -/
def Redrawn (places : List (Point ℝ)) (e f : Element ℝ) : Prop :=
  f = e ∨ f = e.reversed ∧
    (e.Leads → ∀ p ∈ places, ¬ (e.start.coincides p = true ∧ e.stop.coincides p = true))

variable {e f : Element ℝ} {p : Point ℝ} {left other : List (Element ℝ)}

private theorem Redrawn.turned {places : List (Point ℝ)} (h : Redrawn places e f) : Turned e f :=
  h.imp_right And.left

private theorem Redrawn.mono {places fewer : List (Point ℝ)} (hsub : fewer ⊆ places)
    (h : Redrawn places e f) : Redrawn fewer e f :=
  h.imp_right fun ⟨hf, hends⟩ => ⟨hf, fun hleads q hq => hends hleads q (hsub hq)⟩

private theorem touches_of_turned (h : Turned e f) (p : Point ℝ) : touches f p = touches e p := by
  rcases h with rfl | rfl
  · rfl
  · rw [touches, touches, e.start_reversed, ← e.reversed.start_reversed, e.reversed_reversed,
      Bool.or_comm]

private theorem compare_of_turned {e' f' : Element ℝ} (he : Turned e e') (hf : Turned f f') :
    e'.branchCompare f' = e.branchCompare f := by
  have hkeys {g g' : Element ℝ} (h : Turned g g') :
      g'.rank = g.rank ∧ g'.preference = g.preference ∧ g'.length = g.length := by
    rcases h with rfl | rfl
    · exact ⟨rfl, rfl, rfl⟩
    · exact ⟨rfl, g.preference_reversed, g.length_reversed⟩
  obtain ⟨herank, hepreference, helength⟩ := hkeys he
  obtain ⟨hfrank, hfpreference, hflength⟩ := hkeys hf
  rw [Element.branchCompare, Element.branchCompare, herank, hepreference, helength, hfrank,
    hfpreference, hflength]

/-- Choices of elements that differ in direction only. -/
def TurnedAt (a b : Element ℝ × Nat) : Prop := Turned a.1 b.1 ∧ a.2 = b.2

private theorem turnedAt_zipIdx (h : List.Forall₂ Turned left other) (k : Nat) :
    List.Forall₂ TurnedAt (left.zipIdx k) (other.zipIdx k) := by
  induction h generalizing k with
  | nil => exact .nil
  | cons hef _ ih => exact .cons ⟨hef, rfl⟩ (ih (k + 1))

private theorem turnedAt_better {a b : Option (Element ℝ × Nat)} {x y : Element ℝ × Nat}
    (hab : Option.Rel TurnedAt a b) (hxy : TurnedAt x y) :
    Option.Rel TurnedAt (better a x) (better b y) := by
  cases hab with
  | none => exact .some hxy
  | some hab =>
    simp only [better, compare_of_turned hxy.1 hab.1]
    split
    · exact .some hxy
    · exact .some hab

private theorem turnedAt_pick (h : List.Forall₂ Turned left other) (p : Point ℝ) :
    Option.Rel TurnedAt (pick left p) (pick other p) := by
  have htouch : List.Forall₂ TurnedAt (left.zipIdx.filter fun (e, _) => touches e p)
      (other.zipIdx.filter fun (e, _) => touches e p) := by
    refine List.rel_filter ?_ (turnedAt_zipIdx h 0)
    intro a b hab
    simp only [touches_of_turned hab.1 p]
  have hstep : Relator.LiftFun (Option.Rel TurnedAt) (Relator.LiftFun TurnedAt (Option.Rel TurnedAt))
      better better := fun _ _ hab _ _ hxy => turnedAt_better hab hxy
  exact List.rel_foldl hstep .none htouch

private theorem orient_redrawn {places : List (Point ℝ)} (h : Redrawn places e f) (hp : p ∈ places)
    (htouch : touches e p = true) : orient f p = orient e p := by
  rcases h with rfl | ⟨rfl, hends⟩
  · rfl
  · by_cases hleads : e.Leads
    · rw [orient, orient, e.start_reversed, e.reversed_reversed]
      rw [touches, Bool.or_eq_true] at htouch
      have hboth := hends hleads p hp
      by_cases hstart : e.start.coincides p = true
      · have hstop : ¬ e.stop.coincides p = true := fun hstop => hboth ⟨hstart, hstop⟩
        rw [if_pos hstart, if_neg hstop]
      · rw [if_neg hstart, if_pos (htouch.resolve_left hstart)]
    · rw [Element.reversed_of_not_leads hleads]

private theorem redrawn_getElem? {places : List (Point ℝ)}
    (h : List.Forall₂ (Redrawn places) left other)
    {i : Nat} (he : left[i]? = some e) (hf : other[i]? = some f) : Redrawn places e f := by
  obtain ⟨hi, rfl⟩ := List.getElem?_eq_some_iff.mp he
  obtain ⟨hj, rfl⟩ := List.getElem?_eq_some_iff.mp hf
  exact h.get hi hj

private theorem redrawn_eraseIdx {places : List (Point ℝ)}
    (h : List.Forall₂ (Redrawn places) left other)
    (i : Nat) : List.Forall₂ (Redrawn places) (left.eraseIdx i) (other.eraseIdx i) := by
  rw [List.eraseIdx_eq_take_drop_succ, List.eraseIdx_eq_take_drop_succ]
  exact List.rel_append (List.forall₂_take i h) (List.forall₂_drop (i + 1) h)

private theorem walk_redrawn {steps : Nat}
    (h : List.Forall₂ (Redrawn (visited p (walk steps p left).1)) left other) :
    (walk steps p other).1 = (walk steps p left).1 ∧
      List.Forall₂ Turned (walk steps p left).2 (walk steps p other).2 := by
  have hturned := h.imp fun _ _ => Redrawn.turned
  induction steps generalizing p left other with
  | zero => exact ⟨rfl, hturned⟩
  | succ steps ih =>
    have hpick := turnedAt_pick hturned p
    rw [walk, walk]
    rw [walk] at h
    generalize hleft : pick left p = choice, hother : pick other p = choice' at h hpick ⊢
    cases hpick with
    | none => exact ⟨rfl, hturned⟩
    | @some a b hat =>
      obtain ⟨e, i⟩ := a
      obtain ⟨f, j⟩ := b
      obtain rfl : i = j := hat.2
      dsimp only at h ⊢
      obtain ⟨hget, htouch⟩ := pick_eq_some hleft
      have hef := redrawn_getElem? h hget (pick_eq_some hother).1
      have hnext : orient f p = orient e p := orient_redrawn hef (List.mem_cons_self ..) htouch
      have hrest := (redrawn_eraseIdx h i).imp fun _ _ => Redrawn.mono (List.subset_cons_self ..)
      obtain ⟨hplaced, hover⟩ := ih hrest (hrest.imp fun _ _ => Redrawn.turned)
      rw [hnext, hplaced]
      exact ⟨rfl, hover⟩

private theorem problems_congr (path : PathName) (start stop : Point ℝ) (placed : List (Element ℝ))
    (h : left.length = other.length) :
    problems path start stop placed left = problems path start stop placed other := by
  unfold problems
  rw [isEmpty_of_length_eq h, h]

private theorem isProbe_of_turned (h : Turned e f) : f.isProbe = e.isProbe := by
  rcases h with rfl | rfl
  · rfl
  · exact e.isProbe_reversed

private theorem probes_of_turned (h : List.Forall₂ Turned left other) :
    other.filter Element.isProbe = left.filter Element.isProbe := by
  induction h with
  | nil => rfl
  | @cons e f left other hef _ ih =>
    rw [List.filter_cons, List.filter_cons, isProbe_of_turned hef, ih]
    split
    · next hprobe =>
      have hstill : e.reversed = e := by
        apply Element.reversed_of_not_leads
        obtain ⟨kind, order, params⟩ := e
        cases kind with
        | probe => exact id
        | _ => cases hprobe
      rw [hef.elim id fun hf => hf.trans hstill]
    · rfl

/-- Whichever of its elements are drawn backwards, if none of these is at a place of the route with
both ends, a layer has the same route, and the same is wrong with it. -/
theorem assemble_redrawn (path : PathName) (start stop : Point ℝ)
    {elements redrawn : List (Element ℝ)}
    (h : List.Forall₂ (Redrawn (visited start (assemble path elements start stop).1.elements))
      elements redrawn) :
    assemble path redrawn start stop = assemble path elements start stop := by
  have hdrawn : List.Forall₂
      (Redrawn (visited start (assemble path elements start stop).1.elements))
      (drawn elements) (drawn redrawn) := by
    refine List.rel_filter ?_ h
    intro e f hef
    simp only [isProbe_of_turned hef.turned]
  rw [assemble_fst] at hdrawn
  obtain ⟨hplaced, hleft⟩ := walk_redrawn hdrawn
  have hprobes := probes_of_turned (h.imp fun _ _ => Redrawn.turned)
  rw [assemble_eq, assemble_eq, ← hdrawn.length_eq]
  dsimp only
  rw [hplaced, hprobes, isEmpty_of_length_eq hleft.length_eq,
    problems_congr path start stop _ hleft.length_eq]

private theorem Redrawn.of_far (places : List (Point ℝ))
    (h : 2 * positionTolerance < e.start.distance e.stop) : Redrawn places e e.reversed := by
  refine .inr ⟨rfl, fun _ p _ ⟨hstart, hstop⟩ => ?_⟩
  rw [Point.coincides_iff] at hstart hstop
  have htriangle := Point.distance_triangle e.start p e.stop
  rw [Point.distance_comm p] at htriangle
  linarith

def chord (radius : ℝ) : Element ℝ := ⟨.cut (.line ⟨⟨-radius, 0⟩, ⟨radius, 0⟩⟩) false, none, .empty⟩

def bow (radius degrees : ℝ) : Element ℝ :=
  ⟨.cut (.arc ⟨⟨0, 0⟩, radius, 0, degrees, true⟩) false, none, .empty⟩

/-- The sides of a half disc may both be drawn backwards. -/
theorem assemble_redrawn_halfDisc :
    let sides := [chord 10, bow 10 180]
    let backwards := [(chord 10).reversed, (bow 10 180).reversed]
    let route := assemble (.ofText "half") sides ⟨-10, 0⟩ ⟨-10, 0⟩
    List.Forall₂ (Redrawn (visited ⟨-10, 0⟩ route.1.elements)) sides backwards ∧
      assemble (.ofText "half") backwards ⟨-10, 0⟩ ⟨-10, 0⟩ = route := by
  intro sides backwards
  have hchord : 2 * positionTolerance < (chord 10).start.distance (chord 10).stop := by
    refine lt_of_lt_of_le ?_ (Point.abs_x_sub_le (chord 10).start (chord 10).stop)
    show 2 * positionTolerance < |(-10 : ℝ) - 10|
    norm_num [positionTolerance]
  have hbow : 2 * positionTolerance < (bow 10 180).start.distance (bow 10 180).stop := by
    have hstart : (bow 10 180).start.x = 10 := by
      show (0 : ℝ) + 10 * Real.cos (Scalar.radians 0) = 10
      rw [Angle.radians_eq, zero_mul, Real.cos_zero, zero_add, mul_one]
    have hstop : (bow 10 180).stop.x = -10 := by
      show (0 : ℝ) + 10 * Real.cos (Scalar.radians 180) = -10
      rw [Angle.radians_eq, mul_div_cancel₀ _ (by norm_num), Real.cos_pi]
      norm_num
    refine lt_of_lt_of_le ?_ (Point.abs_x_sub_le (bow 10 180).start (bow 10 180).stop)
    rw [hstart, hstop]
    norm_num [positionTolerance]
  have hredrawn (places : List (Point ℝ)) : List.Forall₂ (Redrawn places) sides backwards :=
    .cons (.of_far places hchord) (.cons (.of_far places hbow) .nil)
  exact ⟨hredrawn _, assemble_redrawn (.ofText "half") ⟨-10, 0⟩ ⟨-10, 0⟩ (hredrawn _)⟩

end Route

end Toolpath
