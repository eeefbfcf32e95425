import Toolpath.Proofs.Geometry.Bridges

/-!
Where bridges stand, in exact arithmetic. A length is divided into as many cells as fit, each with a
bridge in its middle, or it has no bridges if no cell fits or too little of one is left beside its
bridge. The roles of the spans follow one pattern, the bridges are as far apart as asked for, and
the first and the last run are as long as the margin, both up to the tolerance.
-/

set_option autoImplicit false

namespace Toolpath.BridgeSpec

def roles (sloped : Bool) (count : Nat) : List PieceRole :=
  .full :: (List.replicate count
    (if sloped then [.rampIn, .bridge, .rampOut, .full] else [.bridge, .full])).flatten

/-- A layout of so many bridges: its spans run from the start of the length to its end, full runs
alternate with bridges, and if the slopes are long enough to be cut, one is on each side of every
bridge. -/
structure Arranged (spec : BridgeSpec ℝ) (count : Nat) (length : ℝ) (spans : List (Span ℝ)) :
    Prop where
  first : spans.head?.map Span.low = some 0
  last : spans.getLast?.map Span.high = some length
  forward : ∀ s ∈ spans, s.low ≤ s.high
  /-- A span begins where the one before ends, or after it by a slope that is not cut. -/
  follows : spans.IsChain (Span.Follows (gap spec.ramp))
  roles : spans.map Span.role = roles (lengthTolerance < spec.ramp) count
  bridges : spans.countP (fun s => s.role = .bridge) = count
  widths : ∀ s ∈ spans, s.role = .bridge → s.length = spec.width
  slopes : ∀ s ∈ spans, s.role = .rampIn ∨ s.role = .rampOut → s.length = spec.ramp
  margins : ∀ s, s ∈ spans.head? ∨ s ∈ spans.getLast? → spec.margin - lengthTolerance ≤ s.length
  apart : (spans.filter fun s => s.role = .bridge).IsChain fun s t =>
    spec.minRun - lengthTolerance ≤ t.low - s.high

section Spans

variable (spec : BridgeSpec ℝ) (total cell ramp : ℝ)

private theorem roles_spansFrom (remaining k : Nat) (cursor : ℝ) :
    (spec.spansFrom total cell ramp remaining k cursor).map Span.role =
      roles (lengthTolerance < ramp) remaining := by
  induction remaining generalizing k cursor with
  | zero => rfl
  | succ remaining ih =>
    simp only [spansFrom_succ, List.map_append, ih, roles, List.replicate_succ, List.flatten_cons,
      decide_eq_true_eq]
    split <;> rfl

private theorem length_of_slope {remaining k : Nat} {cursor : ℝ} {s : Span ℝ}
    (hs : s ∈ spec.spansFrom total cell ramp remaining k cursor)
    (hrole : s.role = .rampIn ∨ s.role = .rampOut) : s.length = ramp := by
  induction remaining generalizing k cursor with
  | zero =>
    obtain rfl := List.mem_singleton.mp hs
    simp at hrole
  | succ remaining ih =>
    simp only [spansFrom_succ, List.mem_append, List.mem_ite_nil_right, List.mem_singleton] at hs
    rcases hs with (((rfl | ⟨-, rfl⟩) | rfl) | ⟨-, rfl⟩) | hs
    · simp at hrole
    · exact sub_sub_cancel _ _
    · simp at hrole
    · exact add_sub_cancel_left _ _
    · exact ih hs

private theorem bridges_spansFrom (remaining k : Nat) (cursor : ℝ) :
    (spec.spansFrom total cell ramp remaining k cursor).filter (fun s => s.role = .bridge) =
      (List.range' k remaining).map fun j =>
        ⟨.bridge, spec.bridgeLow cell j, spec.bridgeLow cell j + spec.width⟩ := by
  induction remaining generalizing k cursor with
  | zero => rfl
  | succ remaining ih =>
    simp only [spansFrom_succ, List.filter_append, ih, List.range'_succ, List.map_cons]
    split <;> rfl

private theorem getLast?_spansFrom (remaining k : Nat) (cursor : ℝ) :
    (spec.spansFrom total cell ramp (remaining + 1) k cursor).getLast? =
      some ⟨.full, spec.bridgeLow cell (k + remaining) + spec.width + ramp, total⟩ := by
  induction remaining generalizing k cursor with
  | zero =>
    rw [spansFrom_succ, List.getLast?_append]
    rfl
  | succ remaining ih =>
    rw [spansFrom_succ, List.getLast?_append, ih, Nat.add_right_comm k 1 remaining, Nat.add_assoc]
    rfl

private theorem length_of_outer {count : Nat} (hcount : count ≠ 0) {s : Span ℝ}
    (hs : s ∈ (spec.spansFrom (count * cell) cell ramp count 0 0).head? ∨
      s ∈ (spec.spansFrom (count * cell) cell ramp count 0 0).getLast?) :
    s.length = (cell - spec.width) / 2 - ramp := by
  obtain ⟨remaining, rfl⟩ := Nat.exists_eq_succ_of_ne_zero hcount
  rw [getLast?_spansFrom, spansFrom_succ] at hs
  rcases hs with hs | hs <;> obtain rfl := Option.some.inj hs
  · simp only [Span.length, bridgeLow_eq, Nat.cast_zero]
    ring
  · simp only [Span.length, bridgeLow_eq]
    push_cast
    ring

end Spans

variable {spec : BridgeSpec ℝ} {length : ℝ}

private theorem spansFrom_ne_nil (spec : BridgeSpec ℝ) (total cell ramp : ℝ) (remaining k : Nat)
    (cursor : ℝ) : spec.spansFrom total cell ramp remaining k cursor ≠ [] := by
  cases remaining <;> simp [spansFrom]

private theorem arranged_spansFrom {count : Nat} {cell : ℝ} (hcount : count ≠ 0)
    (hwidth : 0 < spec.width)
    (hramp : 0 ≤ spec.ramp) (hroom : 0 ≤ (cell - spec.width) / 2 - spec.ramp)
    (hmargin : spec.margin - lengthTolerance ≤ (cell - spec.width) / 2 - spec.ramp)
    (hrun : spec.minRun - lengthTolerance ≤ cell - spec.width) :
    spec.Arranged count (count * cell)
      (spec.spansFrom (count * cell) cell spec.ramp count 0 0) := by
  have hcell : spec.width + 2 * spec.ramp ≤ cell := by linarith
  have hcursor : (0 : ℝ) ≤ (0 : Nat) * cell := by simp
  have htotal : ((0 : Nat) + (count : ℝ)) * cell = count * cell := by simp
  have htiles := tiles_spansFrom hramp hwidth hcell count 0 hcursor htotal
  constructor
  case first => exact htiles.first
  case last => exact htiles.last
  case forward => exact fun s hs => (htiles.within s hs).2.1
  case follows => exact htiles.follows
  case roles => exact roles_spansFrom ..
  case bridges => exact countP_spansFrom ..
  case widths => exact htiles.widths
  case slopes => exact fun _ hs => length_of_slope spec _ _ _ hs
  case margins =>
    intro s hs
    rwa [length_of_outer spec _ _ hcount hs]
  case apart =>
    rw [bridges_spansFrom, List.isChain_map]
    refine (List.isChain_range' _ _ _).imp fun j j' hj => ?_
    rw [hj]
    simp only [bridgeLow_eq]
    push_cast
    linarith

private theorem le_cell (hwidth : 0 < spec.width) (hrun : 0 ≤ spec.minRun)
    (hcells : spec.cells length ≠ 0) :
    spec.width + spec.minRun - lengthTolerance ≤ length / spec.cells length := by
  have hcell : 0 < spec.width + spec.minRun := by linarith
  have hone : (1 : ℝ) ≤ spec.cells length := by exact_mod_cast Nat.one_le_iff_ne_zero.mpr hcells
  have hfit : spec.cells length * (spec.width + spec.minRun) ≤ length + lengthTolerance := by
    have hfits := Nat.floor_pos.mp (Nat.pos_of_ne_zero hcells)
    rw [← le_div_iff₀ hcell]
    exact Nat.floor_le (zero_le_one.trans hfits)
  have htolerance : (lengthTolerance : ℝ) ≤ lengthTolerance * spec.cells length :=
    le_mul_of_one_le_right lengthTolerance_nonneg hone
  rw [le_div_iff₀ (by linarith)]
  linarith

/-- There are no bridges exactly if no cell fits, or if what is left of a cell beside its bridge and
slopes is less than nothing or less than the margin. Otherwise there is one bridge for each cell
that fits, and the spans are arranged as asked for. -/
theorem layout_arranged (spec : BridgeSpec ℝ) {length : ℝ} (hlength : 0 < length)
    (hwidth : 0 < spec.width) (hrun : 0 ≤ spec.minRun) (hmargin : 0 ≤ spec.margin)
    (hramp : 0 ≤ spec.ramp) :
    let count := spec.cells length
    let rest := (length / count - spec.width) / 2 - spec.ramp
    (spec.layout length = [] ↔ count = 0 ∨ rest < 0 ∨ rest + lengthTolerance < spec.margin) ∧
    (spec.layout length ≠ [] → spec.Arranged count length (spec.layout length)) := by
  intro count rest
  have hpositive : ¬ (length ≤ 0 ∨ spec.width + spec.minRun ≤ 0 ∨ spec.width ≤ 0) := by
    push Not
    exact ⟨hlength, by linarith, hwidth⟩
  have hlayout := spec.layout_eq length
  simp only [outerRun_eq, hpositive, false_or, max_eq_left hramp, max_eq_left hmargin] at hlayout
  rw [hlayout]
  split
  · next hshort => exact ⟨iff_of_true rfl hshort, fun hne => absurd rfl hne⟩
  · next hlong =>
    refine ⟨iff_of_false (spansFrom_ne_nil _ _ _ _ _ _ _) hlong, fun _ => ?_⟩
    push Not at hlong
    obtain ⟨hcount, hroom, hleft⟩ := hlong
    have htotal : count * (length / count) = length :=
      mul_div_cancel₀ length (Nat.cast_ne_zero.mpr hcount)
    have hcell : spec.width + spec.minRun - lengthTolerance ≤ length / count :=
      le_cell hwidth hrun hcount
    have harranged := arranged_spansFrom hcount hwidth hramp hroom (by linarith) (by linarith)
    rwa [htotal] at harranged

noncomputable def farBridges : BridgeSpec ℝ := ⟨2.0, 5.0, 20.0, 1.0⟩

theorem layout_arranged_far :
    0 < farBridges.width ∧ 0 ≤ farBridges.minRun ∧ 0 ≤ farBridges.margin ∧ 0 ≤ farBridges.ramp ∧
    farBridges.layout 50 ≠ [] ∧ farBridges.Arranged 2 50 (farBridges.layout 50) := by
  have hwidth : 0 < farBridges.width := by norm_num [farBridges]
  have hrun : 0 ≤ farBridges.minRun := by norm_num [farBridges]
  have hmargin : 0 ≤ farBridges.margin := by norm_num [farBridges]
  have hramp : 0 ≤ farBridges.ramp := by norm_num [farBridges]
  have hcells : farBridges.cells 50 = 2 := by
    rw [cells, Nat.floor_eq_iff' two_ne_zero]
    norm_num [farBridges, lengthTolerance]
  obtain ⟨hempty, harranged⟩ :=
    layout_arranged farBridges (by norm_num : (0 : ℝ) < 50) hwidth hrun hmargin hramp
  have hne : farBridges.layout 50 ≠ [] := by
    rw [Ne, hempty, hcells]
    norm_num [farBridges, lengthTolerance]
  rw [hcells] at harranged
  exact ⟨hwidth, hrun, hmargin, hramp, hne, harranged hne⟩

end Toolpath.BridgeSpec
