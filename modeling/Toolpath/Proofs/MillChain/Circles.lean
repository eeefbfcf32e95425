import Mathlib
import Toolpath.Proofs.MillChain.ArcLines
import Toolpath.Proofs.Model.Travels
import Toolpath.Proofs.Scalar.Rounding

/-!
Circular moves as a machine reads them: one that says the place where the head is goes around the
whole circle. Coordinates are written to a thousandth, and the head may be next to the start of an
arc, so this can go wrong both ways. It does not if the places that are taken for one are written
alike and the ends of partial arcs are far enough apart to be told from each other.
-/

set_option autoImplicit false

namespace Toolpath

namespace Point

def printed {α : Type} [Scalar α] (p : Point α) : String × String :=
  (Scalar.coordinate p.x, Scalar.coordinate p.y)

private theorem distance_lt_of_printed_eq {p q : Point ℝ} (h : p.printed = q.printed) :
    p.distance q < 0.0015 := by
  obtain ⟨hx, hy⟩ := Prod.mk.inj h
  have hxsq : (p.x - q.x) ^ 2 ≤ (1 / 1000) ^ 2 :=
    sq_le_sq' (abs_le.mp (RealScalar.abs_sub_le_of_coordinate_eq hx)).1
      (abs_le.mp (RealScalar.abs_sub_le_of_coordinate_eq hx)).2
  have hysq : (p.y - q.y) ^ 2 ≤ (1 / 1000) ^ 2 :=
    sq_le_sq' (abs_le.mp (RealScalar.abs_sub_le_of_coordinate_eq hy)).1
      (abs_le.mp (RealScalar.abs_sub_le_of_coordinate_eq hy)).2
  show √((p.x - q.x) ^ 2 + (p.y - q.y) ^ 2) < 0.0015
  rw [Real.sqrt_lt' (by norm_num)]
  norm_num at hxsq hysq ⊢
  linarith

end Point

/-- The place that the line says is the one where the head is, as that is written: a machine takes
it for a full circle. -/
def Written.Closed {α : Type} [Scalar α] (line : Written α) : Prop :=
  line.record.word? 'X' = some (Scalar.coordinate line.before.x).toList ∧
    line.record.word? 'Y' = some (Scalar.coordinate line.before.y).toList

open Writer (Adds)
open Written (Straight)

namespace MillChain

variable {setup : Setup ℝ} {w w' : Writer ℝ}

private theorem CutsArc.closed_iff {pass : Pass ℝ} {a : Arc ℝ} {line : Written ℝ}
    (h : CutsArc setup pass a line) :
    line.Closed ↔ (setup.apply a.stop).printed = line.before.xy.printed := by
  have hx : line.record.word? 'X' = some (Scalar.coordinate (setup.apply a.stop).x).toList := by
    rw [h.command.word?_eq (by decide)]
    rfl
  have hy : line.record.word? 'Y' = some (Scalar.coordinate (setup.apply a.stop).y).toList := by
    rw [h.command.word?_eq (by decide)]
    rfl
  rw [Written.Closed, hx, hy, Option.some_inj, Option.some_inj, String.toList_inj,
    String.toList_inj]
  exact Prod.mk_inj.symm

private theorem Cuts.closed_iff {passes : List (Pass ℝ)} {a : Arc ℝ} {line : Written ℝ}
    (h : Cuts setup passes a line) :
    line.Closed ↔ (setup.apply a.stop).printed = line.before.xy.printed := by
  obtain ⟨pass, -, reversed, hcuts⟩ := h
  exact hcuts.closed_iff

section Run

def IsPlace (setup : Setup ℝ) (passes : List (Pass ℝ)) (first p : Point ℝ) : Prop :=
  p = first ∨ ∃ pass ∈ passes, p = setup.apply pass.shape.start ∨ p = setup.apply pass.shape.stop

/-- What makes the circular lines of some passes legible. Places that are taken for one are written
alike, no circle is larger than some kilometres, and partial arcs have their ends apart. -/
structure Legible (setup : Setup ℝ) (passes : List (Pass ℝ)) (first : Point ℝ) : Prop where
  joined : ∀ p q, IsPlace setup passes first p → IsPlace setup passes first q →
    p.coincides q = true → p.printed = q.printed
  small : ∀ pass ∈ passes, ∀ a, pass.shape = .arc a → |a.radius| ≤ 1e7
  apart : ∀ pass ∈ passes, ∀ a, pass.shape = .arc a → a.sweepDegrees ≠ 360 →
    0.0015 ≤ a.start.distance a.stop

variable {passes : List (Pass ℝ)} {first : Point ℝ} {pass : Pass ℝ} {reversed : Bool} {a : Arc ℝ}

private theorem isPlace_directed (setup : Setup ℝ) (first : Point ℝ) (mem : pass ∈ passes)
    (reversed : Bool) :
    IsPlace setup passes first (setup.apply (pass.directed reversed).shape.start) ∧
      IsPlace setup passes first (setup.apply (pass.directed reversed).shape.stop) := by
  have hstart : IsPlace setup passes first (setup.apply pass.shape.start) :=
    Or.inr ⟨pass, mem, Or.inl rfl⟩
  have hstop : IsPlace setup passes first (setup.apply pass.shape.stop) :=
    Or.inr ⟨pass, mem, Or.inr rfl⟩
  rw [Pass.shape_directed]
  cases reversed with
  | false => exact ⟨hstart, hstop⟩
  | true =>
    rw [if_pos rfl, Shape.start_reversed, Shape.stop_reversed]
    exact ⟨hstop, hstart⟩

private theorem Legible.directed (legible : Legible setup passes first) (mem : pass ∈ passes)
    (shape : (pass.directed reversed).shape = .arc a) :
    |a.radius| ≤ 1e7 ∧ (a.sweepDegrees ≠ 360 → 0.0015 ≤ a.start.distance a.stop) := by
  obtain ⟨b, hshape, rfl | rfl⟩ := Pass.exists_arc_of_directed shape
  · exact ⟨legible.small pass mem a hshape, legible.apart pass mem a hshape⟩
  · refine ⟨legible.small pass mem b hshape, fun hpart => ?_⟩
    rw [Arc.sweepDegrees_reversed] at hpart
    have hapart := legible.apart pass mem b hshape hpart
    rw [Point.distance_comm] at hapart
    exact hapart

variable (rigid : setup.placement.Rigid)

include rigid

private theorem Cuts.closed_iff_full (legible : Legible setup passes first) {line : Written ℝ}
    (h : Cuts setup passes a line) (place : IsPlace setup passes first line.before.xy) :
    line.Closed ↔ a.sweepDegrees = 360 := by
  obtain ⟨pass, mem, reversed, hcuts⟩ := h
  obtain ⟨hstart, hstop⟩ := isPlace_directed setup first mem reversed
  rw [hcuts.shape] at hstart hstop
  obtain ⟨hsmall, hapart⟩ := legible.directed mem hcuts.shape
  have hdistance : (setup.apply a.start).distance (setup.apply a.stop) = a.start.distance a.stop :=
    rigid.distance_apply a.start a.stop
  -- The head is written as the start of the arc, also where it is only next to it.
  have hbefore : line.before.xy.printed = (setup.apply a.start).printed :=
    legible.joined _ _ place hstart (Point.coincides_iff.mpr hcuts.before)
  rw [hcuts.closed_iff, hbefore]
  constructor
  · intro hprinted
    by_contra hpart
    have hclose := Point.distance_lt_of_printed_eq hprinted.symm
    rw [hdistance] at hclose
    exact absurd (hapart hpart) (not_le.mpr hclose)
  · intro hfull
    have hnear := Point.coincides_iff.mp (Arc.start_coincides_stop hsmall hfull)
    rw [← hdistance] at hnear
    exact (legible.joined _ _ hstart hstop (Point.coincides_iff.mpr hnear)).symm

private theorem circular_cut (mem : pass ∈ passes) (reversed : Bool) {w : Writer ℝ}
    (place : IsPlace setup passes first w.head.xy) :
    Adds (fun line => line.record.Circular → IsPlace setup passes first line.before.xy ∧
      ∃ a, Cuts setup passes a line) w (cut (pass.directed reversed) w setup) := by
  cases hshape : (pass.directed reversed).shape with
  | line l => exact (straight_cut w hshape).imp fun _ hstraight hc => absurd hc hstraight
  | arc a =>
    obtain ⟨v, line, hstraight, hv, hpush, hcuts, hreached⟩ := exists_line_cut rigid w hshape
    have hstart := (isPlace_directed setup first mem reversed).1
    rw [hshape] at hstart
    have hbefore : IsPlace setup passes first line.before.xy := by
      rw [hreached, Point.reached]
      split
      · exact place
      · exact hstart
    rw [hpush]
    refine (hstraight.imp fun _ hline hc => absurd hc hline).trans (.push _ _ _ fun _ => ?_)
    rw [← hv]
    exact ⟨hbefore, a, pass, mem, reversed, hcuts⟩

private theorem circular_cutAll (choices : List (Choice ℝ)) (own : ∀ c ∈ choices, c.pass ∈ passes)
    {w : Writer ℝ} (place : IsPlace setup passes first w.head.xy) :
    Adds (fun line => line.record.Circular → IsPlace setup passes first line.before.xy ∧
      ∃ a, Cuts setup passes a line) w (cutAll setup w choices) := by
  induction choices generalizing w with
  | nil => exact .refl _ _
  | cons c choices ih =>
    have hmem := own c List.mem_cons_self
    have hplace : IsPlace setup passes first (cutPass w setup c).head.xy := by
      rw [cutPass_eq, xy_cut rigid]
      exact (isPlace_directed setup first hmem c.reversed).2
    have hrest := ih (fun d hd => own d (List.mem_cons_of_mem c hd)) hplace
    exact (circular_cut rigid hmem c.reversed place).trans hrest

private theorem circular_mill {chain : MillChain ℝ} {piles : List (List (Pass ℝ))}
    (made : chain.piles = .ok piles) (mills : chain.mill w setup = .ok w') :
    Adds (fun line => line.record.Circular → IsPlace setup piles.flatten w.head.xy line.before.xy ∧
      ∃ a, Cuts setup piles.flatten a line) w w' := by
  obtain ⟨piles', hpiles, hfinish⟩ := Model.bind_eq_ok.mp mills
  obtain rfl : piles = piles' := Except.ok.inj (made.symm.trans hpiles)
  obtain ⟨hwriter, -, hown⟩ := fullTour_spec setup piles w
  rw [hwriter] at hfinish
  have htour := circular_cutAll rigid (fullTour setup piles w).1
    (fun c hc => List.mem_of_getElem? (hown c hc)) (w := w) (Or.inl rfl)
  refine htour.trans ((straight_finish hfinish).imp ?_)
  exact fun _ hstraight hc => absurd hc hstraight

end Run

section Rounds

variable {setup : Setup ℝ} {w w' : Writer ℝ}

noncomputable def roundArc (endAngle : ℝ) : Arc ℝ := ⟨⟨0, 0⟩, 10.0, 0, endAngle, true⟩

noncomputable def roundCut (endAngle : ℝ) : Cut ℝ :=
  ⟨.arc (roundArc endAngle), false, plateSettings⟩

private theorem exists_piles_roundCut (endAngle : ℝ) :
    ∃ pass, MillChain.piles [roundCut endAngle] = .ok [[pass]] ∧
      pass.shape = .arc (roundArc endAngle) :=
  ⟨_, rfl, rfl⟩

private theorem start_roundArc (endAngle : ℝ) : (roundArc endAngle).start = ⟨10.0, 0⟩ := by
  have hzero : Scalar.radians (0 : ℝ) = 0 := by rw [Angle.radians_eq, zero_mul]
  have hcos : Scalar.cos (Scalar.radians (0 : ℝ)) = 1 := by
    rw [hzero]
    exact Real.cos_zero
  have hsin : Scalar.sin (Scalar.radians (0 : ℝ)) = 0 := by
    rw [hzero]
    exact Real.sin_zero
  rw [Arc.start, Arc.pointAtAngle, roundArc]
  dsimp only
  rw [hcos, hsin, mul_one, mul_zero, zero_add, zero_add]

private theorem turn_roundArc {endAngle : ℝ} (hnonneg : 0 ≤ endAngle) (hlt : endAngle < 360) :
    (roundArc endAngle).turn = endAngle := by
  show Scalar.normalizeDegrees (endAngle - 0) = endAngle
  rw [sub_zero, Angle.normalizeDegrees_of_lt hnonneg hlt]

private theorem apply_unplaced (p : Point ℝ) : (⟨.identity, []⟩ : Setup ℝ).apply p = p :=
  Placement.apply_identity p

private theorem printed_of_near {p : Point ℝ} {n : Nat} (hn : 0 < n)
    (hx : |p.x - n / 1000| < 1 / 2000) (hy : |p.y| < 0.0005) :
    p.printed = ((Numeral.finite ⟨false, n, -3⟩).text, (Numeral.finite ⟨false, 0, -3⟩).text) := by
  rw [Point.printed, Scalar.coordinate, Scalar.coordinate, RealScalar.coordinateNumeral_eq hn hx,
    Scalar.coordinateNumeral, if_pos]
  rwa [RealScalar.abs_eq]

private theorem near_of_short {endAngle : ℝ} (hnonneg : 0 ≤ endAngle) (hshort : endAngle ≤ 0.0001)
    {p : Point ℝ} (hp : p = (roundArc endAngle).start ∨ p = (roundArc endAngle).stop) :
    p.distance ⟨10.0, 0⟩ ≤ 0.00003 := by
  rcases hp with rfl | rfl
  · rw [start_roundArc, Point.distance_self]
    norm_num
  · have hchord := (roundArc endAngle).distance_start_stop_le
    rw [start_roundArc, turn_roundArc hnonneg (lt_of_le_of_lt hshort (by norm_num)),
      Angle.radians_eq, Point.distance_comm] at hchord
    refine le_trans hchord ?_
    have hpi := Real.pi_le_four
    have hpos := Real.pi_pos
    calc |(10.0 : ℝ)| * (endAngle * (Real.pi / 180)) ≤ |(10.0 : ℝ)| * (0.0001 * (4 / 180)) := by
          gcongr
      _ ≤ 0.00003 := by norm_num

private theorem printed_of_short {endAngle : ℝ} (hnonneg : 0 ≤ endAngle)
    (hshort : endAngle ≤ 0.0001)
    {p : Point ℝ} (hp : p = (roundArc endAngle).start ∨ p = (roundArc endAngle).stop) :
    p.printed = (⟨10.0, 0⟩ : Point ℝ).printed := by
  have hprinted (q : Point ℝ) (hnear : q.distance ⟨10.0, 0⟩ ≤ 0.00003) :
      q.printed =
        ((Numeral.finite ⟨false, 10000, -3⟩).text, (Numeral.finite ⟨false, 0, -3⟩).text) := by
    have hx := le_trans (Point.abs_x_sub_le q ⟨10.0, 0⟩) hnear
    have hy := le_trans (Point.abs_y_sub_le q ⟨10.0, 0⟩) hnear
    apply printed_of_near (by decide)
    · norm_num at hx ⊢
      linarith
    · rw [sub_zero] at hy
      norm_num at hy ⊢
      linarith
  rw [hprinted p (near_of_short hnonneg hshort hp), hprinted ⟨10.0, 0⟩]
  rw [Point.distance_self]
  norm_num

private theorem reached_of_short {endAngle x : ℝ} (hnonneg : 0 ≤ endAngle)
    (hshort : endAngle ≤ 0.0001) (hx : |x - 10.0| ≤ 0.0009) {p : Point ℝ}
    (hp : p = (roundArc endAngle).start ∨ p = (roundArc endAngle).stop) :
    (⟨x, 0⟩ : Point ℝ).reached p = ⟨x, 0⟩ := by
  have hoff : (⟨x, 0⟩ : Point ℝ).distance ⟨10.0, 0⟩ ≤ 0.0009 := by
    show √((x - 10.0) ^ 2 + (0 - 0) ^ 2) ≤ 0.0009
    rwa [sub_self, zero_pow (by decide), add_zero, Real.sqrt_sq_eq_abs]
  have hnear := near_of_short hnonneg hshort hp
  have htriangle := Point.distance_triangle ⟨x, 0⟩ ⟨10.0, 0⟩ p
  rw [Point.distance_comm p] at hnear
  rw [Point.reached, if_pos]
  rw [Point.coincides_iff]
  show (⟨x, 0⟩ : Point ℝ).distance p ≤ 0.001
  norm_num at hoff hnear ⊢
  linarith

private theorem exists_line_of_short (endAngle x : ℝ) (hnonneg : 0 ≤ endAngle)
    (hshort : endAngle ≤ 0.0001) (hx : |x - 10.0| ≤ 0.0009) :
    ∃ pass w', MillChain.piles [roundCut endAngle] = .ok [[pass]] ∧
      MillChain.mill [roundCut endAngle] (.start ⟨x, 0, 10.0⟩) ⟨.identity, []⟩ = .ok w' ∧
      ∃ line ∈ (Writer.start ⟨x, 0, 10.0⟩).since w', ∃ a, line.record.Circular ∧
        Cuts ⟨.identity, []⟩ [pass] a line ∧
        a.sweepDegrees = (roundArc endAngle).sweepDegrees ∧
        (line.Closed ↔ (⟨x, 0⟩ : Point ℝ).printed = (⟨10.0, 0⟩ : Point ℝ).printed) := by
  obtain ⟨pass, hpiles, hshape⟩ := exists_piles_roundCut endAngle
  obtain ⟨w', hmill⟩ :=
    exists_mill_through [(roundCut endAngle).shape] (.start ⟨x, 0, 10.0⟩) ⟨.identity, []⟩
  obtain ⟨earlier, hnone, line, hline, hcircular, a, ha, hcuts, hreached⟩ :=
    exists_line_of_mem hpiles Placement.rigid_identity hmill List.mem_cons_self hshape
  -- There is one pass only, so nothing is cut before it.
  obtain rfl : earlier = [] := List.length_eq_zero_iff.mp (by simpa using hnone)
  obtain ⟨hstart, hstop, hsweep⟩ :
      (a.start = (roundArc endAngle).start ∨ a.start = (roundArc endAngle).stop) ∧
      (a.stop = (roundArc endAngle).start ∨ a.stop = (roundArc endAngle).stop) ∧
      a.sweepDegrees = (roundArc endAngle).sweepDegrees := by
    rcases ha with rfl | rfl
    · exact ⟨Or.inl rfl, Or.inr rfl, rfl⟩
    · exact ⟨Or.inr rfl, Or.inl rfl, Arc.sweepDegrees_reversed _⟩
  refine ⟨pass, w', hpiles, hmill, line, hline, a, hcircular, hcuts, hsweep, ?_⟩
  -- The head stays where it is, and the end is written as the point where the arc begins.
  have hbefore : line.before.xy = ⟨x, 0⟩ := by
    rw [hreached, apply_unplaced]
    exact reached_of_short hnonneg hshort hx hstart
  rw [hcuts.closed_iff, hbefore, apply_unplaced, printed_of_short hnonneg hshort hstop]
  exact eq_comm

private theorem sweepDegrees_roundArc_zero : (roundArc 0).sweepDegrees = 360 := by
  rw [Arc.sweepDegrees_eq_iff, turn_roundArc (le_refl 0) (by norm_num)]
  exact Arc.spanTolerance_pos.le

private theorem stop_roundArc_half : (roundArc 180.0).stop = ⟨-10.0, 0⟩ := by
  have hhalf : Scalar.radians (180.0 : ℝ) = Real.pi := by
    rw [Angle.radians_eq]
    norm_num
  have hcos : Scalar.cos (Scalar.radians (180.0 : ℝ)) = -1 := by
    rw [hhalf]
    exact Real.cos_pi
  have hsin : Scalar.sin (Scalar.radians (180.0 : ℝ)) = 0 := by
    rw [hhalf]
    exact Real.sin_pi
  rw [Arc.stop, Arc.pointAtAngle, roundArc]
  dsimp only
  rw [hcos, hsin, mul_neg_one, mul_zero, zero_add, zero_add]

private theorem legible_rounds {circle half : Pass ℝ} (hcircle : circle.shape = .arc (roundArc 0))
    (hhalf : half.shape = .arc (roundArc 180.0)) :
    Legible ⟨.identity, []⟩ [circle, half] ⟨0, 0⟩ := by
  have hplace (p : Point ℝ) (h : IsPlace ⟨.identity, []⟩ [circle, half] ⟨0, 0⟩ p) :
      p.y = 0 ∧ (p.x = 0 ∨ p.x = 10.0 ∨ p.x = -10.0) := by
    rcases h with rfl | ⟨q, hq, hp⟩
    · exact ⟨rfl, Or.inl rfl⟩
    · have hends : p = ⟨10.0, 0⟩ ∨ p = ⟨-10.0, 0⟩ := by
        rw [apply_unplaced, apply_unplaced] at hp
        rcases List.mem_pair.mp hq with rfl | rfl
        · rw [hcircle] at hp
          left
          rcases hp with rfl | rfl
          · exact start_roundArc 0
          · exact start_roundArc 0
        · rw [hhalf] at hp
          exact hp.imp (fun h => h.trans (start_roundArc 180.0))
            fun h => h.trans stop_roundArc_half
      rcases hends with rfl | rfl
      · exact ⟨rfl, Or.inr (Or.inl rfl)⟩
      · exact ⟨rfl, Or.inr (Or.inr rfl)⟩
  have harc {q : Pass ℝ} (hq : q ∈ [circle, half]) {a : Arc ℝ} (ha : q.shape = .arc a) :
      a = roundArc 0 ∨ a = roundArc 180.0 := by
    rcases List.mem_pair.mp hq with rfl | rfl
    · exact Or.inl (Shape.arc.inj (ha.symm.trans hcircle))
    · exact Or.inr (Shape.arc.inj (ha.symm.trans hhalf))
  refine ⟨fun p q hp hq hnear => ?_, fun q hq a ha => ?_, fun q hq a ha hpart => ?_⟩
  · -- All places are on one axis, and different ones are far apart.
    have hx := le_trans (Point.abs_x_sub_le p q) (Point.coincides_iff.mp hnear)
    obtain ⟨hpy, hpx⟩ := hplace p hp
    obtain ⟨hqy, hqx⟩ := hplace q hq
    have hsame : p.x = q.x := by
      rcases hpx with hpx | hpx | hpx <;> rcases hqx with hqx | hqx | hqx <;>
        rw [hpx, hqx] at hx ⊢ <;> norm_num [positionTolerance, abs_le] at hx
    rw [Point.printed, Point.printed, hpy, hqy, hsame]
  · rcases harc hq ha with rfl | rfl
    · norm_num [roundArc]
    · norm_num [roundArc]
  · rcases harc hq ha with rfl | rfl
    · exact absurd sweepDegrees_roundArc_zero hpart
    · have hx := Point.abs_x_sub_le (roundArc 180.0).start (roundArc 180.0).stop
      refine le_trans ?_ hx
      rw [start_roundArc, stop_roundArc_half]
      norm_num

end Rounds

/-- Circular lines are unambiguous where the chain is legible. Every circular line that is written
for a chain cuts an arc of one of its passes, and every such arc is cut by one; it says the place of
the head, as that is written, if and only if the arc is a full circle. -/
theorem closed_iff_full_circle {chain : MillChain ℝ} {piles : List (List (Pass ℝ))}
    (made : chain.piles = .ok piles) {setup : Setup ℝ} (rigid : setup.placement.Rigid)
    {w w' : Writer ℝ} (legible : Legible setup piles.flatten w.head.xy)
    (mills : chain.mill w setup = .ok w') :
    (∀ line ∈ w.since w', line.record.Circular → (∃ a, Cuts setup piles.flatten a line) ∧
      ∀ a, Cuts setup piles.flatten a line → (line.Closed ↔ a.sweepDegrees = 360)) ∧
    ∀ pass ∈ piles.flatten, ∀ a, pass.shape = .arc a → ∃ line ∈ w.since w',
      line.record.Circular ∧
        (Cuts setup piles.flatten a line ∨ Cuts setup piles.flatten a.reversed line) := by
  constructor
  · intro line hline hcircular
    obtain ⟨hplace, hcuts⟩ := (circular_mill rigid made mills).of_mem_since hline hcircular
    exact ⟨hcuts, fun a ha => ha.closed_iff_full rigid legible hplace⟩
  · intro pass hpass a hshape
    obtain ⟨-, -, line, hline, hcircular, b, hb, hcuts, -⟩ :=
      exists_line_of_mem made rigid mills hpass hshape
    refine ⟨line, hline, hcircular, ?_⟩
    rcases hb with rfl | rfl
    · exact Or.inl hcuts
    · exact Or.inr hcuts

/-- A circle and half of it, which are cut from above their center. -/
theorem closed_iff_full_circle_rounds :
    let w : Writer ℝ := .start ⟨0, 0, 10.0⟩
    let setup : Setup ℝ := ⟨.identity, []⟩
    ∃ circle half w', circle.shape = .arc (roundArc 0) ∧ half.shape = .arc (roundArc 180.0) ∧
      MillChain.piles [roundCut 0, roundCut 180.0] = .ok [[circle], [half]] ∧
      setup.placement.Rigid ∧ Legible setup [circle, half] w.head.xy ∧
      MillChain.mill [roundCut 0, roundCut 180.0] w setup = .ok w' ∧
      (∀ line ∈ w.since w', line.record.Circular → (∃ a, Cuts setup [circle, half] a line) ∧
        ∀ a, Cuts setup [circle, half] a line → (line.Closed ↔ a.sweepDegrees = 360)) ∧
      ∀ pass ∈ [circle, half], ∀ a, pass.shape = .arc a → ∃ line ∈ w.since w',
        line.record.Circular ∧
          (Cuts setup [circle, half] a line ∨ Cuts setup [circle, half] a.reversed line) := by
  intro w setup
  obtain ⟨circle, half, hpiles, hcircle, hhalf⟩ : ∃ circle half : Pass ℝ,
      MillChain.piles [roundCut 0, roundCut 180.0] = .ok [[circle], [half]] ∧
        circle.shape = .arc (roundArc 0) ∧ half.shape = .arc (roundArc 180.0) :=
    ⟨_, _, rfl, rfl, rfl⟩
  obtain ⟨w', hmill⟩ :=
    exists_mill_through [(roundCut 0).shape, (roundCut 180.0).shape] w setup
  have hrigid : setup.placement.Rigid := Placement.rigid_identity
  have hlegible : Legible setup [circle, half] w.head.xy := legible_rounds hcircle hhalf
  exact ⟨circle, half, w', hcircle, hhalf, hpiles, hrigid, hlegible, hmill,
    closed_iff_full_circle hpiles hrigid hlegible hmill⟩

/-- Circular lines are ambiguous both ways. A partial arc that is too short for its ends to be told
from each other says the place of the head, and a full circle does not where the head is next to its
start. -/
theorem circular_ambiguous :
    (∃ pass w', MillChain.piles [roundCut 0.0001] = .ok [[pass]] ∧
      MillChain.mill [roundCut 0.0001] (.start ⟨10.0, 0, 10.0⟩) ⟨.identity, []⟩ = .ok w' ∧
      ∃ line ∈ (Writer.start ⟨10.0, 0, 10.0⟩).since w', ∃ a, line.record.Circular ∧
        Cuts ⟨.identity, []⟩ [pass] a line ∧ a.sweepDegrees ≠ 360 ∧ line.Closed) ∧
    ∃ pass w', MillChain.piles [roundCut 0] = .ok [[pass]] ∧
      MillChain.mill [roundCut 0] (.start ⟨10.0008, 0, 10.0⟩) ⟨.identity, []⟩ = .ok w' ∧
      ∃ line ∈ (Writer.start ⟨10.0008, 0, 10.0⟩).since w', ∃ a, line.record.Circular ∧
        Cuts ⟨.identity, []⟩ [pass] a line ∧ a.sweepDegrees = 360 ∧ ¬ line.Closed := by
  constructor
  · obtain ⟨pass, w', hpiles, hmill, line, hline, a, hcircular, hcuts, hsweep, hclosed⟩ :=
      exists_line_of_short 0.0001 10.0 (by norm_num) (by norm_num) (by norm_num)
    refine ⟨pass, w', hpiles, hmill, line, hline, a, hcircular, hcuts, ?_, hclosed.mpr rfl⟩
    rw [hsweep, Ne, Arc.sweepDegrees_eq_iff, turn_roundArc (by norm_num) (by norm_num)]
    norm_num [Arc.spanTolerance]
  · obtain ⟨pass, w', hpiles, hmill, line, hline, a, hcircular, hcuts, hsweep, hclosed⟩ :=
      exists_line_of_short 0 10.0008 (by norm_num) (by norm_num) (by norm_num [abs_le])
    refine ⟨pass, w', hpiles, hmill, line, hline, a, hcircular, hcuts, ?_, ?_⟩
    · rw [hsweep]
      exact sweepDegrees_roundArc_zero
    · rw [hclosed, printed_of_near (n := 10001) (by decide) (by norm_num [abs_lt]) (by norm_num),
        printed_of_near (n := 10000) (by decide) (by norm_num) (by norm_num)]
      decide

end MillChain

end Toolpath
