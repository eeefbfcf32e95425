import Toolpath.Proofs.Pattern.Exactness

/-!
The repetitions of a loop without a greatest count. Nothing but the positions that are left to go on
from makes such a loop stop, and its body may match nothing and hold loops of its own. The loop ends
all the same: below the least count every repetition brings that count nearer, and from there on
every one either leaves nothing to go on from or sees a position for the first time.
-/

set_option autoImplicit false

namespace Toolpath.Pattern

/-- What a loop holds after some repetitions. -/
structure LoopState where
  count : Nat
  /-- All positions where the last repetition ends. -/
  reached : Positions
  /-- Those of them that the loop goes on from. -/
  current : Positions
  /-- The mask of the positions that the next repetitions leave out. -/
  mask : Nat

namespace LoopState

def initial (start : Nat) : LoopState := ⟨0, [start], [start], 0⟩

def next (step : Nat → Positions) (least start : Nat) (s : LoopState) : LoopState :=
  let reached := spread step s.current
  if least ≤ s.count + 1 then
    let fresh := unseen start s.mask reached
    ⟨s.count + 1, reached, fresh, see start s.mask fresh⟩
  else ⟨s.count + 1, reached, reached, s.mask⟩

/-- All positions that the loop holds lie in a range. -/
structure Within (start bound : Nat) (s : LoopState) : Prop where
  reached : ∀ p ∈ s.reached, start ≤ p ∧ p ≤ bound
  current : ∀ p ∈ s.current, start ≤ p ∧ p ≤ bound
  masked : ∀ i, s.mask.testBit i = true → start + i ≤ bound

private theorem within_initial {start bound : Nat} (h : start ≤ bound) :
    (initial start).Within start bound where
  reached p hp := by
    obtain rfl := List.mem_singleton.mp hp
    exact ⟨le_rfl, h⟩
  current p hp := by
    obtain rfl := List.mem_singleton.mp hp
    exact ⟨le_rfl, h⟩
  masked i hi := by simp [initial] at hi

section Next

variable (step : Nat → Positions) {least : Nat} (start : Nat) {s : LoopState}

@[simp] theorem count_next : (s.next step least start).count = s.count + 1 := by
  unfold next
  split <;> rfl

@[simp] theorem reached_next : (s.next step least start).reached = spread step s.current := by
  unfold next
  split <;> rfl

private theorem next_of_counts (h : least ≤ s.count + 1) :
    s.next step least start =
      ⟨s.count + 1, spread step s.current, unseen start s.mask (spread step s.current),
        see start s.mask (unseen start s.mask (spread step s.current))⟩ :=
  if_pos h

private theorem next_of_below (h : ¬ least ≤ s.count + 1) :
    s.next step least start =
      ⟨s.count + 1, spread step s.current, spread step s.current, s.mask⟩ :=
  if_neg h

end Next

/-- How many repetitions can follow that leave something to go on from: those below the least count,
and one for every position that is not seen yet. -/
def left (least start bound : Nat) (s : LoopState) (seen : Finset Nat) : Nat :=
  least - 1 - s.count + (Finset.Icc start bound \ seen).card

end LoopState

/-- The states of a loop after each of its repetitions. The loop goes on as long as there is
something to go on from, however often that is. -/
inductive Unrolls (step : Nat → Positions) (least start : Nat) :
    LoopState → List LoopState → Prop
  | stop {s : LoopState} : s.current = [] → Unrolls step least start s []
  | go {s : LoopState} {later : List LoopState} : s.current ≠ [] →
      Unrolls step least start (s.next step least start) later →
      Unrolls step least start s (s.next step least start :: later)

/-- A loop between two repetitions, with the positions that its mask holds. There are none before a
repetition counts. -/
structure Searching (step : Nat → Positions) (least start bound : Nat) (s : LoopState)
    (seen : Finset Nat) : Prop where
  frontier : Frontier step start bound s.mask s.current seen
  ranged : seen ⊆ Finset.Icc start bound
  uncounted : ¬ least ≤ s.count + 1 → seen = ∅

variable {step : Nat → Positions} {least start bound : Nat} {s : LoopState} {seen : Finset Nat}

private theorem searching_initial (h : start ≤ bound) :
    Searching step least start bound (.initial start) ∅ where
  frontier := .initial fun p hp => by
    obtain rfl := List.mem_singleton.mp hp
    exact Finset.mem_Icc.mpr ⟨le_rfl, h⟩
  ranged := Finset.empty_subset _
  uncounted _ := rfl

namespace Searching

section Step

variable (h : Searching step least start bound s seen)
  (range : ∀ p ∈ Finset.Icc start bound, ∀ q ∈ step p, q ∈ Finset.Icc start bound)

include h range

private theorem advance (counts : least ≤ s.count + 1) :
    Searching step least start bound (s.next step least start)
      (seen ∪ (s.next step least start).current.toFinset) := by
  rw [LoopState.next_of_counts step start counts]
  refine ⟨h.frontier.advance range, ?_, fun hbelow => absurd (Nat.le_succ_of_le counts) hbelow⟩
  refine Finset.union_subset h.ranged fun p hp => ?_
  exact (h.frontier.advance range).ranged p (List.mem_toFinset.mp hp)

private theorem proceed (below : ¬ least ≤ s.count + 1) :
    Searching step least start bound (s.next step least start) ∅ := by
  have hmasked := h.frontier.masked
  rw [h.uncounted below] at hmasked
  rw [LoopState.next_of_below step start below]
  exact ⟨⟨hmasked, fun p hp => h.frontier.mem_spread_ranged range hp, by simp⟩,
    Finset.empty_subset _, fun _ => rfl⟩

private theorem not_mem_of_mem_next (counts : least ≤ s.count + 1) {p : Nat}
    (hp : p ∈ (s.next step least start).current) : p ∉ seen := by
  rw [LoopState.next_of_counts step start counts] at hp
  exact ((h.frontier.mem_fresh range p).mp hp).2

private theorem exists_next :
    ∃ later, Searching step least start bound (s.next step least start) later ∧ seen ⊆ later ∧
      ((s.next step least start).current ≠ [] →
        (s.next step least start).left least start bound later < s.left least start bound seen) := by
  by_cases hcounts : least ≤ s.count + 1
  · refine ⟨_, h.advance range hcounts, Finset.subset_union_left, fun hne => ?_⟩
    rw [LoopState.next_of_counts step start hcounts] at hne ⊢
    have hcard := h.frontier.card_unreached_lt range hne
    have hdone : least - 1 - s.count = 0 := by omega
    have hafter : least - 1 - (s.count + 1) = 0 := by omega
    rw [LoopState.left, LoopState.left, hdone, hafter, Nat.zero_add, Nat.zero_add]
    exact hcard
  · have hnone := h.uncounted hcounts
    refine ⟨∅, h.proceed range hcounts, hnone.subset, fun _ => ?_⟩
    rw [LoopState.left, LoopState.left, LoopState.count_next, hnone]
    omega

private theorem within_next : (s.next step least start).Within start bound := by
  obtain ⟨later, hnext, -, -⟩ := h.exists_next range
  refine ⟨fun p hp => ?_, fun p hp => Finset.mem_Icc.mp (hnext.frontier.ranged p hp), ?_⟩
  · rw [LoopState.reached_next] at hp
    exact Finset.mem_Icc.mp (h.frontier.mem_spread_ranged range hp)
  · intro i hi
    have hmem : start + i ∈ later := by
      rw [← hnext.frontier.masked _ (Nat.le_add_right start i), Nat.add_sub_cancel_left]
      exact hi
    exact (Finset.mem_Icc.mp (hnext.ranged hmem)).2

private theorem exists_unrolls (hne : s.current ≠ []) {n : Nat}
    (hn : s.left least start bound seen < n) :
    ∃ run, Unrolls step least start s run ∧ run.length ≤ n := by
  induction n generalizing s seen with
  | zero => exact absurd hn (Nat.not_lt_zero _)
  | succ n ih =>
    obtain ⟨later, hnext, -, hless⟩ := h.exists_next range
    by_cases hlast : (s.next step least start).current = []
    · exact ⟨_, .go hne (.stop hlast), by simp⟩
    · have hleft := hless hlast
      obtain ⟨run, hrun, hlength⟩ := ih hnext hlast (by omega)
      exact ⟨_, .go hne hrun, by simpa using hlength⟩

end Step

end Searching

namespace Unrolls

variable {run : List LoopState}

private theorem counts (h : Unrolls step least start s run) :
    run.map LoopState.count = List.range' (s.count + 1) run.length := by
  induction h with
  | stop => rfl
  | go hne _ ih => simp [List.range'_succ, ih]

private theorem rounds_eq_take (h : Unrolls step least start s run) (fuel : Nat) :
    rounds (spread step) least none start fuel s.count s.mask s.current =
      (run.map LoopState.current).take fuel := by
  induction h generalizing fuel with
  | stop hnone =>
    cases fuel with
    | zero => rfl
    | succ fuel => simp [rounds_stop (Or.inl hnone)]
  | @go s later hne _ ih =>
    cases fuel with
    | zero => rfl
    | succ fuel =>
      rw [rounds_go hne (by simp), List.map_cons, List.take_succ_cons, ← ih fuel]
      split
      · next hcounts => rw [LoopState.next_of_counts step start hcounts]
      · next hbelow => rw [LoopState.next_of_below step start hbelow]

section Range

variable (h : Unrolls step least start s run) (hs : Searching step least start bound s seen)
  (range : ∀ p ∈ Finset.Icc start bound, ∀ q ∈ step p, q ∈ Finset.Icc start bound)

include h hs range

private theorem within : ∀ t ∈ run, t.Within start bound := by
  induction h generalizing seen with
  | stop => simp
  | go _ _ ih =>
    obtain ⟨later, hnext, -, -⟩ := hs.exists_next range
    intro t ht
    rcases List.mem_cons.mp ht with rfl | ht
    · exact hs.within_next range
    · exact ih hnext t ht

private theorem not_mem_seen : ∀ t ∈ run, ∀ p ∈ t.current, p ∉ seen := by
  induction h generalizing seen with
  | stop => simp
  | @go s _ _ _ ih =>
    intro t ht p hp
    rcases List.mem_cons.mp ht with rfl | ht
    · by_cases hcounts : least ≤ s.count + 1
      · exact hs.not_mem_of_mem_next range hcounts hp
      · simp [hs.uncounted hcounts]
    · obtain ⟨later, hnext, hsub, -⟩ := hs.exists_next range
      exact fun hmem => ih hnext t ht p hp (hsub hmem)

private theorem pairwise_disjoint :
    run.Pairwise fun t u => max least 1 ≤ t.count → t.current.Disjoint u.current := by
  induction h generalizing seen with
  | stop => exact .nil
  | @go s _ _ later ih =>
    obtain ⟨seen', hnext, -, -⟩ := hs.exists_next range
    refine List.pairwise_cons.mpr ⟨fun u hu hleast => ?_, ih hnext⟩
    have hcounts : least ≤ s.count + 1 := by
      rw [LoopState.count_next] at hleast
      omega
    intro p hp hlater
    refine later.not_mem_seen (hs.advance range hcounts) range u hu p hlater ?_
    exact Finset.mem_union_right _ (List.mem_toFinset.mpr hp)

end Range

end Unrolls

variable {τ : Type} [BEq τ]

/-- A loop without a greatest count stops, whatever its body is, after at most so many repetitions.
All that it holds on the way lies between the start and the end of the tokens, and the repetitions
from the least count on, and from the first on, go on from positions that are pairwise different.
What the loop reaches is what these repetitions reach. -/
theorem loop_unrolls (body : Pattern τ) (least : Nat) (tokens : Array τ) (start : Nat) :
    ∃ run, Unrolls (body.ends tokens) least start (.initial start) run ∧
      run.length ≤ max least 1 + (max start tokens.size - start) + 1 ∧
      run.map LoopState.count = List.range' 1 run.length ∧
      (∀ s ∈ LoopState.initial start :: run, s.Within start (max start tokens.size)) ∧
      (run.Pairwise fun s t => max least 1 ≤ s.count → s.current.Disjoint t.current) ∧
      (loop body least none).ends tokens start =
        union (if least = 0 then [start] else [])
          (((run.map LoopState.current).drop (least - 1)).foldr union []) ∧
      ∀ stop ∈ (loop body least none).ends tokens start, start ≤ stop ∧
        stop ≤ max start tokens.size := by
  have range : ∀ p ∈ Finset.Icc start (max start tokens.size), ∀ q ∈ body.ends tokens p,
      q ∈ Finset.Icc start (max start tokens.size) :=
    fun p hp q hq => mem_Icc_of_occurs hp ((mem_ends tokens body p q).mp hq)
  have hstart : start ≤ max start tokens.size := le_max_left _ _
  have hinitial : Searching (body.ends tokens) least start (max start tokens.size)
      (.initial start) ∅ := searching_initial hstart
  have hfirst : (LoopState.initial start).current ≠ [] := by simp [LoopState.initial]
  obtain ⟨run, hrun, hlength⟩ := hinitial.exists_unrolls range hfirst (Nat.lt_succ_self _)
  have hbound : run.length ≤ max least 1 + (max start tokens.size - start) + 1 := by
    simp only [LoopState.left, LoopState.initial, Finset.sdiff_empty, Nat.card_Icc] at hlength
    omega
  refine ⟨run, hrun, hbound, hrun.counts, ?_, hrun.pairwise_disjoint hinitial range, ?_, ?_⟩
  · exact List.forall_mem_cons.mpr
      ⟨LoopState.within_initial hstart, hrun.within hinitial range⟩
  · -- The bound that the loop is given is not below the number of its repetitions.
    have hsets : rounds (spread (body.ends tokens)) least none start
        (enoughRounds least tokens.size start) 0 0 [start] = run.map LoopState.current := by
      refine (hrun.rounds_eq_take _).trans (List.take_of_length_le ?_)
      rw [List.length_map]
      exact hbound
    rw [ends, loopEnds, hsets]
  · intro stop hstop
    obtain ⟨hle, hsize, -⟩ := (mem_ends tokens _ start stop).mp hstop
    exact ⟨hle, hsize⟩

-- At the end of the tokens a body that matches nothing needs all repetitions of the bound.
example : (rounds (spread ((zeroOrMore (leaf 0)).ends #[])) 0 none 0 10 0 0 [0]).length = 2 := by
  decide

end Toolpath.Pattern
