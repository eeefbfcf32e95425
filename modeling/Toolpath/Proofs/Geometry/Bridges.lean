import Mathlib.Analysis.Real.Pi.Bounds
import Toolpath.Geometry.Bridges
import Toolpath.Proofs.Geometry.Slices

/-!
Bridges in a shape, in exact arithmetic. The spans of a layout follow one another from the start of
the shape to its end, but for the slopes that are too short to be cut, and every bridge is as wide
as asked for. Each piece is the part of the shape between the ends of its span.
-/

set_option autoImplicit false

namespace Toolpath

namespace Span

def length (s : Span ℝ) : ℝ := s.high - s.low

def Follows (gap : ℝ) (s t : Span ℝ) : Prop := s.high ≤ t.low ∧ t.low ≤ s.high + gap

end Span

/-- Spans in order from one distance to another, with gaps that add up to `slack`. -/
structure Tiles (width gap slack low high : ℝ) (spans : List (Span ℝ)) : Prop where
  within : ∀ s ∈ spans, low ≤ s.low ∧ s.low ≤ s.high ∧ s.high ≤ high
  widths : ∀ s ∈ spans, s.role = .bridge → s.length = width
  first : spans.head?.map Span.low = some low
  last : spans.getLast?.map Span.high = some high
  follows : spans.IsChain (Span.Follows gap)
  total : (spans.map Span.length).sum + slack = high - low

namespace Tiles

variable {width gap : ℝ}

private theorem singleton {role : PieceRole} {low high : ℝ} (hle : low ≤ high)
    (hwidth : role = .bridge → high - low = width) :
    Tiles width gap 0 low high [⟨role, low, high⟩] where
  within := by simpa using hle
  widths := by simpa [Span.length] using hwidth
  first := rfl
  last := rfl
  follows := List.isChain_singleton _
  total := by simp [Span.length]

private theorem append {slack slack' low middle next high : ℝ} {spans later : List (Span ℝ)}
    (h : Tiles width gap slack low middle spans) (k : Tiles width gap slack' next high later)
    (hnext : middle ≤ next) (hgap : next ≤ middle + gap) :
    Tiles width gap (slack + (next - middle) + slack') low high (spans ++ later) := by
  obtain ⟨s, hs, hlow⟩ := Option.map_eq_some_iff.mp h.first
  obtain ⟨s', hs', hmiddle⟩ := Option.map_eq_some_iff.mp h.last
  obtain ⟨t, ht, hstart⟩ := Option.map_eq_some_iff.mp k.first
  obtain ⟨t', ht', hhigh⟩ := Option.map_eq_some_iff.mp k.last
  have hfront := h.within s (List.mem_of_mem_head? hs)
  have hback := k.within t (List.mem_of_mem_head? ht)
  constructor
  · intro r hr
    rcases List.mem_append.mp hr with hr | hr
    · obtain ⟨hl, hm, hu⟩ := h.within r hr
      exact ⟨hl, hm, by linarith⟩
    · obtain ⟨hl, hm, hu⟩ := k.within r hr
      exact ⟨by linarith, hm, hu⟩
  · intro r hr
    rcases List.mem_append.mp hr with hr | hr
    · exact h.widths r hr
    · exact k.widths r hr
  · rw [List.head?_append, hs]
    exact congrArg some hlow
  · rw [List.getLast?_append, ht']
    exact congrArg some hhigh
  · refine List.isChain_append.mpr ⟨h.follows, k.follows, fun x hx y hy => ?_⟩
    obtain rfl := Option.some.inj (hs'.symm.trans hx)
    obtain rfl := Option.some.inj (ht.symm.trans hy)
    exact ⟨by linarith, by linarith⟩
  · have hsum := h.total
    have hsum' := k.total
    rw [List.map_append, List.sum_append]
    linarith

private theorem append_of_meet {slack slack' low middle high : ℝ} {spans later : List (Span ℝ)}
    (h : Tiles width gap slack low middle spans) (k : Tiles width gap slack' middle high later)
    (hgap : 0 ≤ gap) : Tiles width gap (slack + slack') low high (spans ++ later) := by
  have htiles := h.append k (le_refl _) (le_add_of_nonneg_right hgap)
  rwa [sub_self, add_zero] at htiles

end Tiles

namespace BridgeSpec

/-- What is left out on each side of a bridge. -/
noncomputable def gap (ramp : ℝ) : ℝ := if lengthTolerance < ramp then 0 else ramp

theorem lengthTolerance_nonneg : (0 : ℝ) ≤ lengthTolerance := by
  norm_num [lengthTolerance]

private theorem gap_nonneg {ramp : ℝ} (h : 0 ≤ ramp) : 0 ≤ gap ramp := by
  unfold gap
  split
  · exact le_refl 0
  · exact h

private theorem gap_le (ramp : ℝ) : gap ramp ≤ lengthTolerance := by
  unfold gap
  split
  · exact lengthTolerance_nonneg
  · next hshort => exact not_lt.mp hshort

variable {spec : BridgeSpec ℝ} {total cell ramp : ℝ}

noncomputable def bridgeLow (spec : BridgeSpec ℝ) (cell : ℝ) (k : Nat) : ℝ :=
  k * cell + (cell - spec.width) / 2.0

theorem bridgeLow_eq (spec : BridgeSpec ℝ) (cell : ℝ) (k : Nat) :
    spec.bridgeLow cell k = k * cell + (cell - spec.width) / 2 := by
  norm_num [bridgeLow]

theorem spansFrom_succ (spec : BridgeSpec ℝ) (total cell ramp : ℝ) (remaining k : Nat)
    (cursor : ℝ) : spec.spansFrom total cell ramp (remaining + 1) k cursor =
      let low := spec.bridgeLow cell k
      [⟨.full, cursor, low - ramp⟩] ++
        (if lengthTolerance < ramp then [⟨.rampIn, low - ramp, low⟩] else []) ++
        [⟨.bridge, low, low + spec.width⟩] ++
        (if lengthTolerance < ramp then [⟨.rampOut, low + spec.width, low + spec.width + ramp⟩]
          else []) ++
        spec.spansFrom total cell ramp remaining (k + 1) (low + spec.width + ramp) := by
  simp only [spansFrom, bridgeLow, decide_eq_true_eq]

private theorem tiles_cell (hramp : 0 ≤ ramp) (hwidth : 0 < spec.width) {cursor low slack : ℝ}
    {later : List (Span ℝ)} (hcursor : cursor ≤ low - ramp)
    (h : Tiles spec.width (gap ramp) slack (low + spec.width + ramp) total later) :
    Tiles spec.width (gap ramp) (slack + 2 * gap ramp) cursor total
      ([⟨.full, cursor, low - ramp⟩] ++
        (if lengthTolerance < ramp then [⟨.rampIn, low - ramp, low⟩] else []) ++
        [⟨.bridge, low, low + spec.width⟩] ++
        (if lengthTolerance < ramp then [⟨.rampOut, low + spec.width, low + spec.width + ramp⟩]
          else []) ++ later) := by
  have hgap := gap_nonneg hramp
  have hfull : Tiles spec.width (gap ramp) 0 cursor (low - ramp) [⟨.full, cursor, low - ramp⟩] :=
    .singleton hcursor nofun
  have hbridge : Tiles spec.width (gap ramp) 0 low (low + spec.width)
      [⟨.bridge, low, low + spec.width⟩] :=
    .singleton (by linarith) fun _ => add_sub_cancel_left _ _
  by_cases hsloped : lengthTolerance < ramp
  · have hin : Tiles spec.width (gap ramp) 0 (low - ramp) low [⟨.rampIn, low - ramp, low⟩] :=
      .singleton (by linarith) nofun
    have hout : Tiles spec.width (gap ramp) 0 (low + spec.width) (low + spec.width + ramp)
        [⟨.rampOut, low + spec.width, low + spec.width + ramp⟩] :=
      .singleton (by linarith) nofun
    have hall := ((((hfull.append_of_meet hin hgap).append_of_meet hbridge hgap).append_of_meet
      hout hgap).append_of_meet h hgap)
    have hzero : gap ramp = 0 := if_pos hsloped
    have hslack : 0 + 0 + 0 + 0 + slack = slack + 2 * gap ramp := by rw [hzero]; ring
    simpa only [if_pos hsloped, hslack] using hall
  · have hramp' : gap ramp = ramp := if_neg hsloped
    have hupto := hfull.append hbridge (by linarith) (by linarith)
    have hall := hupto.append h (by linarith) (by linarith)
    have hslack : 0 + (low - (low - ramp)) + 0 +
        (low + spec.width + ramp - (low + spec.width)) + slack = slack + 2 * gap ramp := by
      rw [hramp']
      ring
    simpa only [if_neg hsloped, hslack, List.append_nil] using hall

theorem tiles_spansFrom (hramp : 0 ≤ ramp) (hwidth : 0 < spec.width)
    (hroom : spec.width + 2 * ramp ≤ cell) (remaining k : Nat) {cursor : ℝ}
    (hcursor : cursor ≤ k * cell) (htotal : (k + remaining) * cell = total) :
    Tiles spec.width (gap ramp) (2 * remaining * gap ramp) cursor total
      (spec.spansFrom total cell ramp remaining k cursor) := by
  induction remaining generalizing k cursor with
  | zero =>
    rw [Nat.cast_zero, add_zero] at htotal
    rw [Nat.cast_zero, mul_zero, zero_mul]
    exact .singleton (hcursor.trans_eq htotal) nofun
  | succ remaining ih =>
    have hnext : spec.bridgeLow cell k + spec.width + ramp ≤ ((k + 1 : Nat) : ℝ) * cell := by
      rw [bridgeLow_eq]
      push_cast
      linarith
    have hrest := ih (k + 1) hnext (by push_cast at htotal ⊢; linarith)
    have hlow : cursor ≤ spec.bridgeLow cell k - ramp := by
      rw [bridgeLow_eq]
      linarith
    have hcell := tiles_cell hramp hwidth hlow hrest
    have hslack : 2 * (remaining : ℝ) * gap ramp + 2 * gap ramp =
        2 * ((remaining + 1 : Nat) : ℝ) * gap ramp := by
      push_cast
      ring
    rw [hslack] at hcell
    rw [spansFrom_succ]
    exact hcell

theorem countP_spansFrom (spec : BridgeSpec ℝ) (total cell ramp : ℝ) (remaining k : Nat)
    (cursor : ℝ) : (spec.spansFrom total cell ramp remaining k cursor).countP
      (fun s => s.role = .bridge) = remaining := by
  induction remaining generalizing k cursor with
  | zero => rfl
  | succ remaining ih =>
    simp only [spansFrom_succ, List.countP_append, ih]
    split <;> simp [Nat.add_comm]

/-- As many cells as fit; one more if no more than the tolerance is missing for it. -/
noncomputable def cells (spec : BridgeSpec ℝ) (length : ℝ) : Nat :=
  ⌊(length + lengthTolerance) / (spec.width + spec.minRun)⌋₊

noncomputable def outerRun (spec : BridgeSpec ℝ) (length : ℝ) : ℝ :=
  (length / spec.cells length - spec.width) / 2.0 - max spec.ramp 0

theorem outerRun_eq (spec : BridgeSpec ℝ) (length : ℝ) :
    spec.outerRun length = (length / spec.cells length - spec.width) / 2 - max spec.ramp 0 := by
  norm_num [outerRun]

/-- A length is divided into cells if one fits and enough of it is left beside its bridge. -/
theorem layout_eq (spec : BridgeSpec ℝ) (length : ℝ) :
    spec.layout length =
      if (length ≤ 0 ∨ spec.width + spec.minRun ≤ 0 ∨ spec.width ≤ 0) ∨ spec.cells length = 0 ∨
          spec.outerRun length < 0 ∨ spec.outerRun length + lengthTolerance < max spec.margin 0
      then []
      else spec.spansFrom length (length / spec.cells length) (max spec.ramp 0)
        (spec.cells length) 0 0 := by
  have hzero : (0.0 : ℝ) = 0 := by norm_num
  have hnan : Scalar.isNaN length = false := by simp [Scalar.isNaN]
  have hcells : Scalar.floorNat ((length + lengthTolerance) / (spec.width + spec.minRun)) =
      spec.cells length := rfl
  unfold layout
  simp only [hcells, hnan, RealScalar.max_eq, hzero, Bool.false_eq_true, false_or]
  split
  · next hpositive => rw [if_pos (Or.inl hpositive)]
  next hpositive =>
  simp only [hpositive, false_or]
  split
  · next hcount => rw [if_pos (Or.inl hcount)]
  next hcount =>
  simp only [hcount, false_or, or_comm, outerRun]

private theorem layout_eq_spansFrom {length : ℝ} (h : spec.layout length ≠ []) :
    0 < spec.width ∧ 0 < length ∧ ∃ (count : Nat) (cell : ℝ),
      spec.layout length = spec.spansFrom length cell (max spec.ramp 0) count 0 0 ∧
      count * cell = length ∧ spec.width + 2 * max spec.ramp 0 ≤ cell := by
  rw [layout_eq] at h ⊢
  split at h
  · exact absurd rfl h
  next hroom =>
  rw [if_neg hroom]
  push Not at hroom
  obtain ⟨⟨hlength, -, hwidth⟩, hcount, hrun, -⟩ := hroom
  refine ⟨hwidth, hlength, _, _, rfl, mul_div_cancel₀ length (Nat.cast_ne_zero.mpr hcount), ?_⟩
  rw [outerRun_eq] at hrun
  linarith

private theorem tiles_layout {length : ℝ} (h : spec.layout length ≠ []) :
    Tiles spec.width (gap (max spec.ramp 0))
      (2 * (spec.layout length).countP (fun s => s.role = .bridge) * gap (max spec.ramp 0))
      0 length (spec.layout length) := by
  obtain ⟨hwidth, -, count, cell, hlayout, hcells, hroom⟩ := layout_eq_spansFrom h
  have hramp := le_max_right spec.ramp 0
  rw [hlayout, countP_spansFrom]
  exact tiles_spansFrom hramp hwidth hroom count 0 (by simp) (by simpa using hcells)

end BridgeSpec

/-- What a piece is to a span of a shape: it runs as the shape does from the one end of the span to
the other. A piece of an arc that is too short is a full circle instead of a part. -/
structure Shape.IsPiece (shape : Shape ℝ) (s : Span ℝ) (piece : Piece ℝ) : Prop where
  role : piece.role = s.role
  start : piece.shape.start = shape.along s.low
  stop : piece.shape.stop = shape.along s.high
  along : ∀ d, 0 ≤ d → d ≤ s.length → piece.shape.along d = shape.along (s.low + d)
  length : shape.Resolves s.length → piece.shape.length = s.length
  circle : ∀ a, shape = .arc a → ¬ shape.Resolves s.length → piece.shape.length = a.circumference

private theorem Shape.isPiece_slice {shape : Shape ℝ} (hshape : shape.Regular) {s : Span ℝ}
    (hlow : 0 ≤ s.low) (hle : s.low ≤ s.high) (hhigh : s.high ≤ shape.length) :
    shape.IsPiece s ⟨s.role, shape.slice s.low s.high⟩ where
  role := rfl
  start := Shape.start_slice hshape s.low s.high
  stop := Shape.stop_slice hshape s.low s.high
  along _ hd hlength := Shape.along_slice hshape hd hlength
  length := Shape.length_slice hshape hle (by linarith)
  circle := by
    rintro a rfl hshort
    exact Arc.length_slice_of_short hshape.1 hle (not_lt.mp hshort)

namespace BridgeSpec

/-- The pieces of a shape cover it. Their spans go from its start to its end, each as wide as asked
for if it is a bridge, and leave out no more than the slopes that are too short to be cut. Each
piece is the part of its span, the first one starts where the shape does, the last one ends where it
does, and if no piece is so short that it becomes a circle, the lengths add up. -/
theorem pieces_cover (spec : BridgeSpec ℝ) {shape : Shape ℝ} (hshape : shape.Regular)
    (hpieces : spec.pieces shape ≠ []) :
    let spans := spec.layout shape.length
    let bridges := spans.countP fun s => s.role = .bridge
    let total := ((spec.pieces shape).map fun p => p.shape.length).sum
    Tiles spec.width (gap (max spec.ramp 0)) (2 * bridges * gap (max spec.ramp 0)) 0 shape.length
      spans ∧
    List.Forall₂ shape.IsPiece spans (spec.pieces shape) ∧
    (∀ first ∈ (spec.pieces shape).head?, first.shape.start = shape.start) ∧
    (∀ last ∈ (spec.pieces shape).getLast?, last.shape.stop = shape.stop) ∧
    ((∀ s ∈ spans, shape.Resolves s.length) →
      total ≤ shape.length ∧ shape.length ≤ total + 2 * bridges * lengthTolerance ∧
      (lengthTolerance < spec.ramp → total = shape.length)) := by
  intro spans bridges total
  have hspans : spans ≠ [] := fun hnil => hpieces (List.map_eq_nil_iff.mpr hnil)
  have htiles := tiles_layout hspans
  have hpiece : ∀ s ∈ spans, shape.IsPiece s ⟨s.role, shape.slice s.low s.high⟩ := fun s hs =>
    have hwithin := htiles.within s hs
    Shape.isPiece_slice hshape hwithin.1 hwithin.2.1 hwithin.2.2
  refine ⟨htiles, ?_, ?_, ?_, fun hresolves => ?_⟩
  · refine List.forall₂_map_right_iff.mpr (List.forall₂_same.mpr hpiece)
  · intro first hfirst
    rw [pieces, List.head?_map] at hfirst
    obtain ⟨s, hs, rfl⟩ := Option.map_eq_some_iff.mp hfirst
    obtain ⟨t, ht, hlow⟩ := Option.map_eq_some_iff.mp htiles.first
    obtain rfl := Option.some.inj (hs.symm.trans ht)
    rw [(hpiece s (List.mem_of_mem_head? hs)).start, hlow, Shape.along_zero]
  · intro last hlast
    rw [pieces, List.getLast?_map] at hlast
    obtain ⟨s, hs, rfl⟩ := Option.map_eq_some_iff.mp hlast
    obtain ⟨t, ht, hhigh⟩ := Option.map_eq_some_iff.mp htiles.last
    obtain rfl := Option.some.inj (hs.symm.trans ht)
    rw [(hpiece s (List.mem_of_getLast? hs)).stop, hhigh, Shape.along_length hshape]
  · have htotal : total = (spans.map Span.length).sum := by
      change ((spans.map _).map _).sum = _
      rw [List.map_map]
      exact congrArg List.sum (List.map_congr_left fun s hs => (hpiece s hs).length (hresolves s hs))
    have hsum := htiles.total
    rw [← htotal, sub_zero] at hsum
    have hnonneg := gap_nonneg (le_max_right spec.ramp 0)
    have hslack : 2 * (bridges : ℝ) * gap (max spec.ramp 0) ≤ 2 * bridges * lengthTolerance :=
      mul_le_mul_of_nonneg_left (gap_le _) (by positivity)
    refine ⟨?_, ?_, fun hsloped => ?_⟩
    · have hleft : 0 ≤ 2 * (bridges : ℝ) * gap (max spec.ramp 0) := by positivity
      linarith
    · linarith
    · have hzero : gap (max spec.ramp 0) = 0 := if_pos (lt_max_of_lt_left hsloped)
      rw [hzero, mul_zero, add_zero] at hsum
      exact hsum

noncomputable def quarter : Arc ℝ := ⟨⟨0, 0⟩, (10 : ℕ), 0, (90 : ℕ), true⟩

private theorem turn_quarter : quarter.turn = 90 := by
  have hturn : quarter.turn = Scalar.normalizeDegrees (90 - 0 : ℝ) :=
    congrArg Scalar.normalizeDegrees (if_pos rfl)
  rw [hturn, sub_zero, Angle.normalizeDegrees_of_lt (by norm_num) (by norm_num)]

private theorem length_quarter : quarter.length = 5 * Real.pi := by
  have hlong : ¬ (90 : ℝ) ≤ Arc.spanTolerance := by norm_num [Arc.spanTolerance]
  rw [Arc.length, Arc.sweepDegrees_eq, turn_quarter, if_neg hlong, Angle.radians_eq]
  change 10 * (90 * (Real.pi / 180)) = 5 * Real.pi
  ring

private theorem regular_quarter : (Shape.arc quarter).Regular := by
  refine ⟨?_, Or.inr ?_⟩
  · change (negligible : ℝ) < 10
    norm_num [negligible]
  · rw [turn_quarter]
    norm_num [Arc.spanTolerance]

private theorem layout_of_one {spec : BridgeSpec ℝ} {length : ℝ} (hwidth : 0 < spec.width)
    (hroom : spec.width + 2 * max spec.ramp 0 ≤ length)
    (hmargin : max spec.margin 0 ≤ (length - spec.width) / 2 - max spec.ramp 0)
    (hone : spec.width + spec.minRun ≤ length)
    (htwo : length + lengthTolerance < 2 * (spec.width + spec.minRun)) :
    spec.layout length = spec.spansFrom length length (max spec.ramp 0) 1 0 0 := by
  have htolerance := lengthTolerance_nonneg
  have hramp := le_max_right spec.ramp 0
  have hcell : 0 < spec.width + spec.minRun := by linarith
  have hcount : spec.cells length = 1 := by
    rw [cells, Nat.floor_eq_iff' one_ne_zero, le_div_iff₀ hcell, div_lt_iff₀ hcell]
    norm_num
    constructor <;> linarith
  have hrun : spec.outerRun length = (length - spec.width) / 2 - max spec.ramp 0 := by
    rw [outerRun_eq, hcount, Nat.cast_one, div_one]
  rw [layout_eq, if_neg, hcount, Nat.cast_one, div_one]
  rw [hcount, hrun]
  push Not
  exact ⟨⟨by linarith, hcell, hwidth⟩, one_ne_zero, by linarith, by linarith⟩

noncomputable def oneBridge : BridgeSpec ℝ := ⟨(2 : ℕ), 5, 5, 1⟩

private theorem layout_oneBridge : oneBridge.layout (Shape.arc quarter).length =
    oneBridge.spansFrom (5 * Real.pi) (5 * Real.pi) 1 1 0 0 := by
  have hlower := Real.pi_gt_three
  have hupper := Real.pi_lt_d2
  have htolerance : (lengthTolerance : ℝ) < 1 := by norm_num [lengthTolerance]
  have hramp : max oneBridge.ramp 0 = 1 := max_eq_left zero_le_one
  rw [Shape.length, length_quarter, ← hramp]
  refine layout_of_one ?_ ?_ ?_ ?_ ?_ <;> norm_num [oneBridge] <;> linarith

private theorem resolves_oneBridge {s : Span ℝ}
    (h : s ∈ oneBridge.layout (Shape.arc quarter).length) :
    (Shape.arc quarter).Resolves s.length := by
  have hlower := Real.pi_gt_three
  have hupper := Real.pi_lt_d2
  have hsloped : (lengthTolerance : ℝ) < 1 := by norm_num [lengthTolerance]
  have hlong : 1 ≤ s.length := by
    rw [layout_oneBridge] at h
    simp only [spansFrom, hsloped, oneBridge, decide_true, if_true, List.cons_append,
      List.nil_append, List.mem_cons, List.not_mem_nil, or_false, CharP.cast_eq_zero] at h
    rcases h with rfl | rfl | rfl | rfl | rfl <;> norm_num [Span.length] <;> linarith
  refine lt_of_lt_of_le ?_ hlong
  rw [Angle.radians_eq]
  change 10 * (1e-9 * (Real.pi / 180)) < (1 : ℝ)
  linarith

theorem pieces_cover_quarter :
    (Shape.arc quarter).Regular ∧ oneBridge.pieces (.arc quarter) ≠ [] ∧
    (∀ s ∈ oneBridge.layout (Shape.arc quarter).length, (Shape.arc quarter).Resolves s.length) ∧
    List.Forall₂ (Shape.arc quarter).IsPiece (oneBridge.layout (Shape.arc quarter).length)
      (oneBridge.pieces (.arc quarter)) ∧
    ((oneBridge.pieces (.arc quarter)).map fun p => p.shape.length).sum = 5 * Real.pi := by
  have hpieces : oneBridge.pieces (.arc quarter) ≠ [] := by
    rw [pieces, layout_oneBridge]
    exact List.cons_ne_nil _ _
  have hsloped : (lengthTolerance : ℝ) < oneBridge.ramp := by norm_num [lengthTolerance, oneBridge]
  obtain ⟨-, hparts, -, -, htotal⟩ := pieces_cover oneBridge regular_quarter hpieces
  have hsum := (htotal fun s => resolves_oneBridge).2.2 hsloped
  exact ⟨regular_quarter, hpieces, fun s => resolves_oneBridge, hparts, hsum.trans length_quarter⟩

noncomputable def wholeBridge : BridgeSpec ℝ := ⟨0, 5 * Real.pi, 0, 0⟩

/-- Where nothing is left to cut in front of a bridge, the piece in front of it is a full circle. -/
theorem circle_before_whole_bridge :
    ∃ first rest, wholeBridge.layout (Shape.arc quarter).length = ⟨.full, 0, 0⟩ :: rest ∧
      (wholeBridge.pieces (.arc quarter)).head? = some first ∧
      first.shape.length = 20 * Real.pi := by
  have hpi := Real.pi_gt_three
  have htolerance : (lengthTolerance : ℝ) < 1 := by norm_num [lengthTolerance]
  have hradius : (negligible : ℝ) < quarter.radius := regular_quarter.1
  have hlayout : wholeBridge.layout (Shape.arc quarter).length =
      wholeBridge.spansFrom (5 * Real.pi) (5 * Real.pi) (max 0 0) 1 0 0 := by
    rw [Shape.length, length_quarter]
    refine layout_of_one ?_ ?_ ?_ ?_ ?_ <;> norm_num [wholeBridge] <;> linarith
  have hspans : ∃ rest, wholeBridge.layout (Shape.arc quarter).length = ⟨.full, 0, 0⟩ :: rest := by
    rw [hlayout]
    simp [spansFrom, wholeBridge]
  obtain ⟨rest, hrest⟩ := hspans
  refine ⟨⟨.full, (Shape.arc quarter).slice 0 0⟩, rest, hrest, ?_, ?_⟩
  · rw [pieces, List.head?_map, hrest]
    rfl
  · have hshort : (0 : ℝ) - 0 ≤ quarter.radius * Scalar.radians Arc.spanTolerance := by
      rw [sub_zero, Angle.radians_eq]
      have hpos := Arc.spanTolerance_pos
      have hradius' := Arc.radius_pos hradius
      positivity
    refine (Arc.length_slice_of_short hradius (le_refl 0) hshort).trans ?_
    rw [Arc.circumference, Angle.radians_eq]
    change 10 * (360 * (Real.pi / 180)) = 20 * Real.pi
    ring

end BridgeSpec

end Toolpath
