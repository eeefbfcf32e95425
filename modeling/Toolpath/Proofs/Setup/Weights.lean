import Mathlib
import Toolpath.Proofs.Scalar.Real
import Toolpath.Setup

/-!
The weights of the probes at a point. In exact arithmetic they are a distribution: none is negative,
and they add up to one wherever the bed is probed at all.
-/

set_option autoImplicit false

namespace Toolpath

namespace RealScalar

theorem sum_eq (xs : List ℝ) : Scalar.sum xs = xs.sum := by
  have hzero : (0.0 : ℝ) = 0 := by norm_num
  show xs.foldl (· + ·) 0.0 = xs.sum
  rw [hzero, List.sum_eq_foldl]

theorem abs_sum_sub_sum_le {β : Type} {f g e : β → ℝ} {xs : List β}
    (h : ∀ x ∈ xs, |f x - g x| ≤ e x) : |(xs.map f).sum - (xs.map g).sum| ≤ (xs.map e).sum := by
  induction xs with
  | nil => simp
  | cons x xs ih =>
    obtain ⟨hx, hxs⟩ := List.forall_mem_cons.mp h
    have hrest := ih hxs
    rw [List.map_cons, List.map_cons, List.map_cons, List.sum_cons, List.sum_cons, List.sum_cons]
    rw [abs_le] at hx hrest ⊢
    constructor <;> linarith

theorem distance_pos {p q : Point ℝ} (h : p.coincides q = false) : 0 < p.distance q := by
  have hfar : (0.001 : ℝ) < p.distance q := not_le.mp (of_decide_eq_false h)
  have htolerance : (0 : ℝ) < 0.001 := by norm_num
  linarith

end RealScalar

namespace Setup

variable {s : Setup ℝ} {world : Point ℝ}

/-- How much each probe would count by itself: the inverse square of its distance. -/
noncomputable def inverseSquares (s : Setup ℝ) (world : Point ℝ) : List ℝ :=
  s.probes.map fun probe => 1.0 / Scalar.square (probe.position.distance world)

private theorem weights_cases (s : Setup ℝ) (world : Point ℝ) :
    (∃ i < s.probes.length, s.weights world = [(i, 1)]) ∨
    ((∀ probe ∈ s.probes, probe.position.coincides world = false) ∧
      s.weights world = (s.inverseSquares world).zipIdx.map fun (w, i) =>
        (i, w / (s.inverseSquares world).sum)) := by
  have hone : (1.0 : ℝ) = 1 := by norm_num
  unfold weights
  split
  · next i hfirst =>
    left
    obtain ⟨hlt, -⟩ := List.findIdx?_eq_some_iff_findIdx_eq.mp hfirst
    refine ⟨i, hlt, ?_⟩
    rw [hone]
  · next hnone =>
    right
    refine ⟨fun probe hprobe => ?_, ?_⟩
    · simpa using List.findIdx?_eq_none_iff.mp hnone probe hprobe
    · simp only [RealScalar.sum_eq]
      rfl

theorem pos_of_mem_inverseSquares
    (apart : ∀ probe ∈ s.probes, probe.position.coincides world = false) :
    ∀ w ∈ s.inverseSquares world, 0 < w := by
  intro w hw
  obtain ⟨probe, hprobe, rfl⟩ := List.mem_map.mp hw
  have hdistance : 0 < probe.position.distance world := RealScalar.distance_pos (apart probe hprobe)
  have hone : (0 : ℝ) < 1.0 := by norm_num
  exact div_pos hone (mul_pos hdistance hdistance)

private theorem lt_of_mem_weights : ∀ w ∈ s.weights world, w.1 < s.probes.length := by
  intro w hw
  rcases s.weights_cases world with ⟨i, hi, heq⟩ | ⟨-, heq⟩
  · rw [heq, List.mem_singleton] at hw
    rwa [hw]
  · rw [heq, List.mem_map] at hw
    obtain ⟨⟨share, i⟩, hmem, rfl⟩ := hw
    have hi : i < (s.inverseSquares world).length := List.snd_lt_of_mem_zipIdx hmem
    rwa [inverseSquares, List.length_map] at hi

theorem nonneg_of_mem_weights : ∀ w ∈ s.weights world, 0 ≤ w.2 := by
  intro w hw
  rcases s.weights_cases world with ⟨i, -, heq⟩ | ⟨apart, heq⟩
  · rw [heq, List.mem_singleton] at hw
    rw [hw]
    exact zero_le_one
  · rw [heq, List.mem_map] at hw
    obtain ⟨⟨share, i⟩, hmem, rfl⟩ := hw
    have hpos := pos_of_mem_inverseSquares apart
    have hshare : share ∈ s.inverseSquares world := List.fst_mem_of_mem_zipIdx hmem
    exact div_nonneg (le_of_lt (hpos share hshare))
      (List.sum_nonneg fun w hw => le_of_lt (hpos w hw))

theorem sum_weights (hprobes : s.probes ≠ []) : ((s.weights world).map Prod.snd).sum = 1 := by
  rcases s.weights_cases world with ⟨i, -, heq⟩ | ⟨apart, heq⟩
  · rw [heq]
    simp
  · have htotal : 0 < (s.inverseSquares world).sum := by
      apply List.sum_pos _ (pos_of_mem_inverseSquares apart)
      exact List.map_eq_nil_iff.not.mpr hprobes
    have hshares : (s.weights world).map Prod.snd =
        (s.inverseSquares world).map (· * ((s.inverseSquares world).sum)⁻¹) := by
      rw [heq, List.map_map, ← List.zipIdx_map_fst 0 (s.inverseSquares world), List.map_map,
        List.zipIdx_map_fst]
      rfl
    rw [hshares, List.sum_map_mul_right, List.map_id']
    exact mul_inv_cancel₀ (ne_of_gt htotal)

theorem mem_weighted {i : Nat} {probe : BedProbe ℝ} {w : ℝ} :
    (i, probe, w) ∈ s.weighted world ↔
      (i, w) ∈ s.weights world ∧ s.probes[i]? = some probe := by
  unfold weighted
  rw [List.mem_filterMap]
  constructor
  · rintro ⟨⟨j, v⟩, hmem, hsome⟩
    obtain ⟨found, hfound, heq⟩ := Option.map_eq_some_iff.mp hsome
    obtain ⟨rfl, rfl, rfl⟩ := heq
    exact ⟨hmem, hfound⟩
  · rintro ⟨hmem, hfound⟩
    refine ⟨(i, w), hmem, ?_⟩
    show s.probes[i]?.map (fun probe => (i, probe, w)) = some (i, probe, w)
    rw [hfound, Option.map_some]

private theorem map_weighted (s : Setup ℝ) (world : Point ℝ) :
    (s.weighted world).map (fun x => x.2.2) = (s.weights world).map Prod.snd := by
  have hvalid : ∀ ws : List (Nat × ℝ), (∀ w ∈ ws, w.1 < s.probes.length) →
      (ws.filterMap fun (i, w) => s.probes[i]?.map fun probe => (i, probe, w)).map
        (fun x => x.2.2) = ws.map Prod.snd := by
    intro ws hws
    induction ws with
    | nil => rfl
    | cons w ws ih =>
      obtain ⟨hw, hrest⟩ := List.forall_mem_cons.mp hws
      rw [List.filterMap_cons_some (b := (w.1, s.probes[w.1], w.2))
        (by simp [List.getElem?_eq_getElem hw]), List.map_cons, List.map_cons, ih hrest]
  exact hvalid (s.weights world) lt_of_mem_weights

theorem sum_weighted (hprobes : s.probes ≠ []) :
    ((s.weighted world).map fun x => x.2.2).sum = 1 := by
  rw [map_weighted, sum_weights hprobes]

theorem nonneg_of_mem_weighted : ∀ x ∈ s.weighted world, 0 ≤ x.2.2 := by
  rintro ⟨i, probe, w⟩ hmem
  exact nonneg_of_mem_weights _ (mem_weighted.mp hmem).1

end Setup

end Toolpath
