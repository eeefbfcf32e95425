import Mathlib.Order.Interval.Finset.Nat
import Toolpath.Proofs.Pattern.Positions

/-!
The positions that a loop reaches. A loop leaves out what an earlier repetition from the least count
on has reached; nothing is lost by it, because all that follows from such a position was found, or
is being found, from where it was reached first.
-/

set_option autoImplicit false

namespace Toolpath.Pattern

/-- So many steps lead from the first position to the second. -/
inductive Reaches (step : Nat → Positions) : Nat → Nat → Nat → Prop
  | refl (p : Nat) : Reaches step 0 p p
  | tail {k p q r : Nat} : Reaches step k p q → r ∈ step q → Reaches step (k + 1) p r

variable {step : Nat → Positions}

private theorem Reaches.head {k p q r : Nat} (first : q ∈ step p) (h : Reaches step k q r) :
    Reaches step (k + 1) p r := by
  induction h with
  | refl q => exact .tail (.refl p) first
  | tail _ last ih => exact .tail (ih first) last

private theorem Reaches.exists_head {k p r : Nat} (h : Reaches step (k + 1) p r) :
    ∃ q ∈ step p, Reaches step k q r := by
  induction k generalizing r with
  | zero =>
    cases h with
    | tail before last =>
      cases before
      exact ⟨r, last, .refl r⟩
  | succ k ih =>
    cases h with
    | tail before last =>
      obtain ⟨q, hq, middle⟩ := ih before
      exact ⟨q, hq, .tail middle last⟩

private theorem exists_reaches_iff_spread {current : Positions} {q : Nat} {allowed : Nat → Prop} :
    (∃ p ∈ current, ∃ k, 1 ≤ k ∧ allowed k ∧ Reaches step k p q) ↔
      ∃ r ∈ spread step current, ∃ k, allowed (k + 1) ∧ Reaches step k r q := by
  constructor
  · rintro ⟨p, hp, k, hk, hallowed, hr⟩
    obtain ⟨j, rfl⟩ : ∃ j, k = j + 1 := ⟨k - 1, by omega⟩
    obtain ⟨r, first, rest⟩ := hr.exists_head
    exact ⟨r, (mem_spread step current).mpr ⟨p, hp, first⟩, j, hallowed, rest⟩
  · rintro ⟨r, hr, k, hallowed, rest⟩
    obtain ⟨p, hp, first⟩ := (mem_spread step current).mp hr
    exact ⟨p, hp, k + 1, by omega, hallowed, rest.head first⟩

/-- A loop that has reached its least count: the mask holds `seen`, and whatever one step reaches
from a seen position that is not current is seen as well. -/
structure Frontier (step : Nat → Positions) (start bound mask : Nat) (current : Positions)
    (seen : Finset Nat) : Prop where
  masked : ∀ p, start ≤ p → (mask.testBit (p - start) = true ↔ p ∈ seen)
  ranged : ∀ p ∈ current, p ∈ Finset.Icc start bound
  closed : ∀ p ∈ seen, p ∉ current → ∀ q ∈ step p, q ∈ seen

namespace Frontier

variable {start bound mask : Nat} {current : Positions} {seen : Finset Nat}

theorem initial (h : ∀ p ∈ current, p ∈ Finset.Icc start bound) :
    Frontier step start bound 0 current ∅ where
  masked p _ := by simp
  ranged := h
  closed p hp := by simp at hp

theorem mem_spread_ranged (h : Frontier step start bound mask current seen)
    (range : ∀ p ∈ Finset.Icc start bound, ∀ q ∈ step p, q ∈ Finset.Icc start bound)
    {q : Nat} (hq : q ∈ spread step current) : q ∈ Finset.Icc start bound := by
  obtain ⟨p, hp, hstep⟩ := (mem_spread step current).mp hq
  exact range p (h.ranged p hp) q hstep

theorem mem_fresh (h : Frontier step start bound mask current seen)
    (range : ∀ p ∈ Finset.Icc start bound, ∀ q ∈ step p, q ∈ Finset.Icc start bound) (q : Nat) :
    q ∈ unseen start mask (spread step current) ↔ q ∈ spread step current ∧ q ∉ seen := by
  rw [mem_unseen]
  refine and_congr_right fun hq => ?_
  have hstart : start ≤ q := (Finset.mem_Icc.mp (h.mem_spread_ranged range hq)).1
  rw [← h.masked q hstart, Bool.not_eq_true]

theorem advance (h : Frontier step start bound mask current seen)
    (range : ∀ p ∈ Finset.Icc start bound, ∀ q ∈ step p, q ∈ Finset.Icc start bound) :
    Frontier step start bound (see start mask (unseen start mask (spread step current)))
      (unseen start mask (spread step current))
      (seen ∪ (unseen start mask (spread step current)).toFinset) where
  masked p hp := by
    rw [testBit_see, h.masked p hp, Finset.mem_union, List.mem_toFinset]
    refine or_congr_right ⟨?_, fun hmem => ⟨p, hmem, rfl⟩⟩
    rintro ⟨q, hq, heq⟩
    have hspread := ((h.mem_fresh range q).mp hq).1
    have hstart := (Finset.mem_Icc.mp (h.mem_spread_ranged range hspread)).1
    have : p = q := by omega
    exact this ▸ hq
  ranged p hp := h.mem_spread_ranged range ((h.mem_fresh range p).mp hp).1
  closed p hp hnot q hq := by
    rw [Finset.mem_union, List.mem_toFinset] at hp ⊢
    have hseen : p ∈ seen := hp.resolve_right hnot
    by_cases hcur : p ∈ current
    · have hspread : q ∈ spread step current := (mem_spread step current).mpr ⟨p, hcur, hq⟩
      by_cases hold : q ∈ seen
      · exact Or.inl hold
      · exact Or.inr ((h.mem_fresh range q).mpr ⟨hspread, hold⟩)
    · exact Or.inl (h.closed p hseen hcur q hq)

private theorem reaches (h : Frontier step start bound mask current seen) {k p q : Nat}
    (hp : p ∈ seen) (hr : Reaches step k p q) :
    q ∈ seen ∨ ∃ c ∈ current, ∃ j, 1 ≤ j ∧ j ≤ k ∧ Reaches step j c q := by
  induction k generalizing p with
  | zero =>
    cases hr
    exact Or.inl hp
  | succ k ih =>
    by_cases hcur : p ∈ current
    · exact Or.inr ⟨p, hcur, k + 1, by omega, le_rfl, hr⟩
    · obtain ⟨r, hstep, rest⟩ := hr.exists_head
      rcases ih (h.closed p hp hcur r hstep) rest with hq | ⟨c, hc, j, hj, hjk, hcq⟩
      · exact Or.inl hq
      · exact Or.inr ⟨c, hc, j, hj, by omega, hcq⟩

/-- Every repetition that reaches something new leaves fewer positions to reach. -/
theorem card_unreached_lt (h : Frontier step start bound mask current seen)
    (range : ∀ p ∈ Finset.Icc start bound, ∀ q ∈ step p, q ∈ Finset.Icc start bound)
    (hne : unseen start mask (spread step current) ≠ []) :
    (Finset.Icc start bound \
        (seen ∪ (unseen start mask (spread step current)).toFinset)).card <
      (Finset.Icc start bound \ seen).card := by
  obtain ⟨q, hq⟩ := List.exists_mem_of_ne_nil _ hne
  obtain ⟨hspread, hold⟩ := (h.mem_fresh range q).mp hq
  have hrange := h.mem_spread_ranged range hspread
  apply Finset.card_lt_card
  refine Finset.ssubset_iff_of_subset ?_ |>.mpr ⟨q, ?_, ?_⟩
  · exact Finset.sdiff_subset_sdiff le_rfl Finset.subset_union_left
  · exact Finset.mem_sdiff.mpr ⟨hrange, hold⟩
  · simp [hq]

end Frontier

variable {least start bound : Nat} {most : Option Nat}

theorem rounds_stop {run : Positions → Positions} {fuel count mask : Nat}
    {current : Positions} (h : current = [] ∨ ∃ m, most = some m ∧ m ≤ count) :
    rounds run least most start (fuel + 1) count mask current = [] := by
  have stop : (current.isEmpty || most.any (· ≤ count)) = true := by
    rcases h with rfl | ⟨m, rfl, hm⟩ <;> simp [*]
  simp only [rounds, stop, if_true]

theorem rounds_go {run : Positions → Positions} {fuel count mask : Nat}
    {current : Positions} (hne : current ≠ []) (hmost : ∀ m, most = some m → count < m) :
    rounds run least most start (fuel + 1) count mask current =
      if least ≤ count + 1 then
        unseen start mask (run current) ::
          rounds run least most start fuel (count + 1)
            (see start mask (unseen start mask (run current))) (unseen start mask (run current))
      else run current :: rounds run least most start fuel (count + 1) mask (run current) := by
  have go : (current.isEmpty || most.any (· ≤ count)) = false := by
    cases most with
    | none => simpa using hne
    | some m => simpa [hne] using hmost m rfl
  simp only [rounds, go, Bool.false_eq_true, if_false]

private theorem mem_rounds_of_frontier
    (range : ∀ p ∈ Finset.Icc start bound, ∀ q ∈ step p, q ∈ Finset.Icc start bound)
    {fuel count mask : Nat} {current : Positions} {seen : Finset Nat}
    (h : Frontier step start bound mask current seen) (hcount : least ≤ count + 1)
    (hfuel : current = [] ∨ (Finset.Icc start bound \ seen).card < fuel) (q : Nat) :
    (q ∈ seen ∨
      ∃ set ∈ rounds (spread step) least most start fuel count mask current, q ∈ set) ↔
    (q ∈ seen ∨
      ∃ p ∈ current, ∃ k, 1 ≤ k ∧ (∀ m, most = some m → count + k ≤ m) ∧ Reaches step k p q) := by
  -- The fuel covers the positions that are not seen, and every repetition that goes on sees one.
  induction fuel generalizing count mask current seen with
  | zero =>
    have hnil : current = [] := hfuel.resolve_right (by omega)
    simp [rounds, hnil]
  | succ fuel ih =>
    by_cases hstop : current = [] ∨ ∃ m, most = some m ∧ m ≤ count
    · rw [rounds_stop hstop]
      refine or_congr_right ⟨by simp, ?_⟩
      rintro ⟨p, hp, k, hk, hle, -⟩
      rcases hstop with rfl | ⟨m, hm, hmc⟩
      · simp at hp
      · have := hle m hm
        omega
    · push Not at hstop
      obtain ⟨hne, hmost⟩ := hstop
      let fresh := unseen start mask (spread step current)
      have hnext : Frontier step start bound (see start mask fresh) fresh
          (seen ∪ fresh.toFinset) := h.advance range
      have hleft : fresh = [] ∨
          (Finset.Icc start bound \ (seen ∪ fresh.toFinset)).card < fuel := by
        by_cases hfresh : fresh = []
        · exact Or.inl hfresh
        · have hless : (Finset.Icc start bound \ (seen ∪ fresh.toFinset)).card <
              (Finset.Icc start bound \ seen).card := h.card_unreached_lt range hfresh
          have henough := hfuel.resolve_left hne
          exact Or.inr (by omega)
      have hcount' : least ≤ count + 1 + 1 := by omega
      have later := ih hnext hcount' hleft
      rw [rounds_go hne hmost, if_pos hcount, exists_reaches_iff_spread]
      simp only [Finset.mem_union, List.mem_toFinset] at later
      simp only [List.mem_cons, exists_eq_or_imp, ← or_assoc]
      refine later.trans ⟨?_, ?_⟩
      · rintro ((hseen | hfresh) | ⟨p, hp, k, -, hle, hr⟩)
        · exact Or.inl hseen
        · have hspread := ((h.mem_fresh range q).mp hfresh).1
          exact Or.inr ⟨q, hspread, 0, hmost, .refl q⟩
        · have hspread := ((h.mem_fresh range p).mp hp).1
          refine Or.inr ⟨p, hspread, k, ?_, hr⟩
          intro m hm
          have := hle m hm
          omega
      · rintro (hseen | ⟨r, hspread, j, hle, rest⟩)
        · exact Or.inl (Or.inl hseen)
        · have hr : r ∈ seen ∪ fresh.toFinset := by
            rw [Finset.mem_union, List.mem_toFinset, h.mem_fresh range]
            tauto
          rcases hnext.reaches hr rest with hq | ⟨c, hc, i, hi, hij, hcq⟩
          · exact Or.inl (by simpa using hq)
          · refine Or.inr ⟨c, hc, i, hi, ?_, hcq⟩
            intro m hm
            have := hle m hm
            omega

private theorem mem_drop_rounds
    (range : ∀ p ∈ Finset.Icc start bound, ∀ q ∈ step p, q ∈ Finset.Icc start bound)
    {below fuel count : Nat} {current : Positions}
    (hcur : ∀ p ∈ current, p ∈ Finset.Icc start bound) (hbelow : below = least - 1 - count)
    (hfuel : below + (Finset.Icc start bound).card < fuel) (q : Nat) :
    (∃ set ∈ (rounds (spread step) least most start fuel count 0 current).drop below, q ∈ set) ↔
      ∃ p ∈ current, ∃ k, 1 ≤ k ∧
        (least ≤ count + k ∧ ∀ m, most = some m → count + k ≤ m) ∧ Reaches step k p q := by
  induction below generalizing fuel count current with
  | zero =>
    have hcount : least ≤ count + 1 := by omega
    have henough : current = [] ∨ (Finset.Icc start bound \ ∅).card < fuel :=
      Or.inr (by simpa using hfuel)
    have counted := @mem_rounds_of_frontier step least start bound most range fuel count 0 current ∅
      (Frontier.initial hcur) hcount henough q
    simp only [Finset.notMem_empty, false_or] at counted
    rw [List.drop_zero, counted]
    refine exists_congr fun p => and_congr_right fun _ => exists_congr fun k => ?_
    refine and_congr_right fun hk => ?_
    have hleast : least ≤ count + k := by omega
    simp [hleast]
  | succ below ih =>
    obtain ⟨fuel, rfl⟩ : ∃ f, fuel = f + 1 := ⟨fuel - 1, by omega⟩
    have hcount : ¬ least ≤ count + 1 := by omega
    by_cases hstop : current = [] ∨ ∃ m, most = some m ∧ m ≤ count
    · rw [rounds_stop hstop]
      refine ⟨by simp, ?_⟩
      rintro ⟨p, hp, k, hk, ⟨-, hle⟩, -⟩
      rcases hstop with rfl | ⟨m, hm, hmc⟩
      · simp at hp
      · have := hle m hm
        omega
    · push Not at hstop
      have hnext : ∀ p ∈ spread step current, p ∈ Finset.Icc start bound :=
        fun p hp => (Frontier.initial hcur).mem_spread_ranged range hp
      rw [rounds_go hstop.1 hstop.2, if_neg hcount, List.drop_succ_cons, exists_reaches_iff_spread]
      refine (ih hnext (by omega) (by omega)).trans ?_
      refine exists_congr fun r => and_congr_right fun _ => exists_congr fun k => ?_
      rw [Nat.add_assoc, Nat.add_comm 1 k]
      constructor
      · rintro ⟨-, hallowed, hr⟩
        exact ⟨hallowed, hr⟩
      · rintro ⟨⟨hleast, hmost⟩, hr⟩
        exact ⟨by omega, ⟨hleast, hmost⟩, hr⟩

theorem mem_loopEnds {size : Nat}
    (range : ∀ p ∈ Finset.Icc start (max start size), ∀ q ∈ step p,
      q ∈ Finset.Icc start (max start size)) (q : Nat) :
    q ∈ loopEnds (spread step) least most size start ↔
      ∃ k, least ≤ k ∧ (∀ m, most = some m → k ≤ m) ∧ Reaches step k start q := by
  have hcur : ∀ p ∈ [start], p ∈ Finset.Icc start (max start size) := by simp
  have hfuel : least - 1 + (Finset.Icc start (max start size)).card <
      enoughRounds least size start := by
    simp only [Nat.card_Icc, enoughRounds]
    omega
  have hbelow : least - 1 = least - 1 - 0 := rfl
  rw [loopEnds, mem_union, mem_foldr_union, mem_drop_rounds range hcur hbelow hfuel]
  constructor
  · rintro (hstart | ⟨p, hp, k, -, ⟨hleast, hle⟩, hr⟩)
    · split at hstart
      · next hzero =>
        rw [List.mem_singleton.mp hstart]
        exact ⟨0, by omega, by simp, .refl start⟩
      · simp at hstart
    · rw [List.mem_singleton.mp hp] at hr
      exact ⟨k, by omega, by simpa using hle, hr⟩
  · rintro ⟨k, hleast, hle, hr⟩
    cases k with
    | zero =>
      cases hr
      have hzero : least = 0 := by omega
      exact Or.inl (by simp [hzero])
    | succ k =>
      exact Or.inr ⟨start, by simp, k + 1, by omega, ⟨by omega, by simpa using hle⟩, hr⟩

private theorem ascending_of_mem_rounds (hstep : ∀ p, Ascending (step p))
    {fuel count mask : Nat} {current set : Positions}
    (h : set ∈ rounds (spread step) least most start fuel count mask current) :
    Ascending set := by
  induction fuel generalizing count mask current with
  | zero => simp [rounds] at h
  | succ fuel ih =>
    have hspread : Ascending (spread step current) := ascending_spread hstep current
    by_cases hstop : current = [] ∨ ∃ m, most = some m ∧ m ≤ count
    · simp [rounds_stop hstop] at h
    · push Not at hstop
      rw [rounds_go hstop.1 hstop.2] at h
      split at h <;> rcases List.mem_cons.mp h with rfl | h
      · exact ascending_unseen hspread start mask
      · exact ih h
      · exact hspread
      · exact ih h

theorem ascending_loopEnds (hstep : ∀ p, Ascending (step p)) (size : Nat) :
    Ascending (loopEnds (spread step) least most size start) := by
  apply ascending_union
  · split <;> simp
  · apply ascending_foldr_union
    intro set hset
    exact ascending_of_mem_rounds hstep (List.mem_of_mem_drop hset)

end Toolpath.Pattern
