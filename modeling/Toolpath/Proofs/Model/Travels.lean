import Mathlib.Analysis.Real.Sqrt
import Toolpath.Proofs.Model.Issued
import Toolpath.Proofs.Scalar.Real

/-!
Travels are safe. In exact arithmetic the head is nowhere moved over the bed from further below the
sweep height of the element that asks for the move than the tolerance of heights, whichever elements
and placed paths were before it.
-/

set_option autoImplicit false

namespace Toolpath

open Model

private theorem Clear.le {sweep z : ℝ} (h : Clear sweep z) : sweep - 1e-6 ≤ z := by
  have hpositive : (0 : ℝ) ≤ 1e-6 := by norm_num
  rcases h with rfl | hnear | hnot
  · linarith
  · rw [RealScalar.abs_eq] at hnear
    have hbound : |z - sweep| ≤ 1e-6 := hnear
    have hbelow := neg_abs_le (z - sweep)
    linarith
  · have hle : sweep ≤ z := not_lt.mp hnot
    linarith

/-- Horizontal travel is at a safe height. If a path gives a program, all lines that are written for
it are those of its header, its elements and its end, and every travel among them is written when
the head is not further below the sweep height of its element than the tolerance. -/
theorem travels_at_sweep_height (m : Model ℝ) {program : Program ℝ}
    (h : m.generate = .ok program) :
    ∃ lines : List (Issued ℝ), m.issued = .ok lines ∧
      m.rawRecords = .ok (lines.map fun i => i.line.record) ∧
      ∀ i ∈ lines, i.line.record.kind = .travel →
        ∃ sweep, i.settings.get? .sweepHeight = some sweep ∧ sweep - 1e-6 ≤ i.line.before.z := by
  obtain ⟨records, hrecords, -⟩ := bind_eq_ok.mp h
  obtain ⟨lines, hlines, rfl, hhigh⟩ := logged_issued hrecords
  refine ⟨lines, hlines, hrecords, fun i hi htravel => ?_⟩
  obtain ⟨sweep, hsweep, hclear⟩ := hhigh i hi htravel
  exact ⟨sweep, hsweep, hclear.le⟩

noncomputable def plateSettings : Settings ℝ :=
  (Settings.ofDefaults .standard).push
    (((Overlay.empty .path .nowhere).set .top 0.0).set .bottom (-2.0))

noncomputable def holeModel : Model ℝ where
  name := .ofText "Hole"
  settings := plateSettings
  start := ⟨0, 0⟩
  stop := ⟨0, 0⟩
  elements := [⟨⟨.drill ⟨0, 0⟩ false, none, ∅⟩, plateSettings, none⟩]
  probes := []

noncomputable def plateCut : Cut ℝ := ⟨.line ⟨⟨3, 4⟩, ⟨9, 4⟩⟩, false, plateSettings⟩

/-- A plate with a hole and a cut. -/
noncomputable def plateModel : Model ℝ where
  name := .ofText "Plate"
  settings := plateSettings
  start := ⟨3, 4⟩
  stop := ⟨9, 4⟩
  elements :=
    [⟨⟨.subPath ⟨3, 4⟩ ⟨3, 4⟩ (.ofText "Hole"), none, ∅⟩, plateSettings,
        some (holeModel, .identity)⟩,
      ⟨⟨.cut plateCut.shape false, none, ∅⟩, plateSettings, none⟩]
  probes := []

theorem exists_mill_through (shapes : List (Shape ℝ)) (w : Writer ℝ) (setup : Setup ℝ) :
    ∃ w', MillChain.mill (shapes.map fun shape => ⟨shape, false, plateSettings⟩) w setup =
      .ok w' := by
  have hpiles : ∃ piles,
      MillChain.piles (shapes.map fun shape => ⟨shape, false, plateSettings⟩) = .ok piles := by
    induction shapes with
    | nil => exact ⟨[], rfl⟩
    | cons shape shapes ih =>
      obtain ⟨later, hlater⟩ := ih
      exact ⟨_, bind_eq_ok.mpr ⟨_, rfl, bind_eq_ok.mpr ⟨later, hlater, rfl⟩⟩⟩
  obtain ⟨piles, hpiles⟩ := hpiles
  have hfinish (w : Writer ℝ) : ∃ w',
      MillChain.finish (shapes.map fun shape => ⟨shape, false, plateSettings⟩) w setup =
        .ok w' := by
    unfold MillChain.finish
    split
    · exact ⟨w, rfl⟩
    · next last hlast =>
      obtain ⟨shape, -, rfl⟩ := List.mem_map.mp (List.mem_of_getLast? hlast)
      dsimp only
      split
      · exact ⟨w, rfl⟩
      · exact ⟨_, rfl⟩
  obtain ⟨w', hw'⟩ := hfinish (MillChain.fullTour setup piles w).2
  exact ⟨w', bind_eq_ok.mpr ⟨piles, hpiles, hw'⟩⟩

private theorem generate_plate : ∃ program, plateModel.generate = .ok program := by
  have hemit : ∃ w, plateModel.emit ⟨.identity, []⟩ (plateModel.header 10.0) = .ok w :=
    exists_mill_through [plateCut.shape] _ _
  obtain ⟨w, hw⟩ := hemit
  have hrecords : plateModel.rawRecords = .ok (footer w 10.0).records :=
    bind_eq_ok.mpr ⟨10.0, rfl, bind_eq_ok.mpr ⟨w, hw, rfl⟩⟩
  exact ⟨_, bind_eq_ok.mpr ⟨_, hrecords, rfl⟩⟩

private theorem exists_travel_since {w : Writer ℝ} {dest : Point ℝ} (rate : Option ℝ)
    (head : Head ℝ) (far : 1e-6 < w.head.xy.distance dest) :
    ∃ line ∈ (Writer.start head).since (w.travelTo dest rate), line.record.kind = .travel := by
  have hnot : ¬ w.head.xy.distance dest ≤ Writer.moveTolerance := not_le.mpr far
  have hpushed (r : Record ℝ) (after : Head ℝ) :
      ⟨r, w.head, after⟩ ∈ (Writer.start head).since (w.push r after) := by
    simp [Writer.since, Writer.push, Writer.start]
  unfold Writer.travelTo
  dsimp only
  rw [if_neg hnot]
  exact ⟨_, hpushed _ _, rfl⟩

private theorem exists_travel_plate {lines : List (Issued ℝ)} (h : plateModel.issued = .ok lines) :
    ∃ i ∈ lines, i.line.record.kind = .travel := by
  obtain ⟨sweep, -, h⟩ := bind_eq_ok.mp h
  obtain ⟨ts, -, h⟩ := bind_eq_ok.mp h
  obtain ⟨log, -, h⟩ := bind_eq_ok.mp h
  obtain rfl := Except.ok.inj h
  have hdistance : (startHead sweep).xy.distance plateModel.start = 5 := by
    change Real.sqrt ((0.0 - 3) ^ 2 + (0.0 - 4) ^ 2) = 5
    have hsquare : ((0.0 - 3 : ℝ) ^ 2 + (0.0 - 4) ^ 2) = 5 ^ 2 := by norm_num
    rw [hsquare]
    exact Real.sqrt_sq (by norm_num)
  have hfar : (1e-6 : ℝ) < (startHead sweep).xy.distance plateModel.start := by
    rw [hdistance]
    norm_num
  have htravels : ∃ line ∈ (Writer.start (startHead sweep)).since (plateModel.header sweep),
      line.record.kind = .travel := exists_travel_since none (startHead sweep) hfar
  obtain ⟨line, hline, htravel⟩ := htravels
  exact ⟨⟨plateModel.settings, line⟩, List.mem_append_left _ (List.mem_map_of_mem hline), htravel⟩

theorem travels_over_plate :
    ∃ (program : Program ℝ) (lines : List (Issued ℝ)), plateModel.generate = .ok program ∧
      plateModel.issued = .ok lines ∧ (∃ i ∈ lines, i.line.record.kind = .travel) ∧
      ∀ i ∈ lines, i.line.record.kind = .travel →
        ∃ sweep, i.settings.get? .sweepHeight = some sweep ∧ sweep - 1e-6 ≤ i.line.before.z := by
  obtain ⟨program, hprogram⟩ := generate_plate
  obtain ⟨lines, hlines, -, hhigh⟩ := travels_at_sweep_height plateModel hprogram
  exact ⟨program, lines, hprogram, hlines, exists_travel_plate hlines, hhigh⟩

end Toolpath
