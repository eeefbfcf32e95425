import Mathlib.Data.List.TakeWhile
import Mathlib.Tactic.Tauto
import Toolpath.Pattern

/-!
Sets of positions. A set is held as an ascending list, so that its last member is the greatest; the
operations keep that order and are known by their members alone. A mask of bits stands for the same
kind of set.
-/

set_option autoImplicit false

namespace Toolpath.Pattern

abbrev Ascending (ps : Positions) : Prop := ps.Pairwise (· < ·)

private theorem mem_dropWhile_eq {a p : Nat} (qs : Positions) :
    a ∈ qs.dropWhile (· = p) ∨ a = p ↔ a ∈ qs ∨ a = p := by
  induction qs with
  | nil => simp
  | cons q qs ih =>
    by_cases hq : q = p
    · simp only [List.dropWhile_cons, hq, decide_true, if_true, List.mem_cons, ih]
      tauto
    · simp [hq]

@[simp] theorem mem_union {a : Nat} (ps qs : Positions) :
    a ∈ union ps qs ↔ a ∈ ps ∨ a ∈ qs := by
  induction ps generalizing qs with
  | nil => simp [union]
  | cons p ps ih =>
    have split : a ∈ qs ↔ a ∈ qs.takeWhile (· < p) ∨ a ∈ qs.dropWhile (· < p) := by
      rw [← List.mem_append, List.takeWhile_append_dropWhile]
    have dropped := mem_dropWhile_eq (a := a) (p := p) (qs.dropWhile (· < p))
    simp only [union, List.mem_append, List.mem_cons, ih]
    rw [split]
    tauto

private theorem lt_of_mem_dropWhile {p a : Nat} {qs : Positions} (h : Ascending qs)
    (ha : a ∈ (qs.dropWhile (· < p)).dropWhile (· = p)) : p < a := by
  induction qs with
  | nil => simp at ha
  | cons q qs ih =>
    have hqs : Ascending qs := (List.pairwise_cons.mp h).2
    have below : ∀ b ∈ qs, q < b := (List.pairwise_cons.mp h).1
    by_cases hq : q < p
    · rw [List.dropWhile_cons_of_pos (by simpa using hq)] at ha
      exact ih hqs ha
    · rw [List.dropWhile_cons_of_neg (by simpa using hq)] at ha
      by_cases he : q = p
      · rw [List.dropWhile_cons_of_pos (by simpa using he)] at ha
        have hmem : a ∈ qs := (List.dropWhile_suffix _).subset ha
        exact he ▸ below a hmem
      · rw [List.dropWhile_cons_of_neg (by simpa using he)] at ha
        rcases List.mem_cons.mp ha with rfl | hmem
        · omega
        · have := below a hmem
          omega

theorem ascending_union {ps qs : Positions} (hp : Ascending ps) (hq : Ascending qs) :
    Ascending (union ps qs) := by
  induction ps generalizing qs with
  | nil => exact hq
  | cons p ps ih =>
    obtain ⟨above, hps⟩ := List.pairwise_cons.mp hp
    let others := (qs.dropWhile (· < p)).dropWhile (· = p)
    have hothers : Ascending others :=
      hq.sublist ((List.dropWhile_sublist _).trans (List.dropWhile_sublist _))
    have beyond : ∀ a ∈ union ps others, p < a := by
      intro a ha
      rcases (mem_union ps others).mp ha with ha | ha
      · exact above a ha
      · exact lt_of_mem_dropWhile hq ha
    have under : ∀ a ∈ qs.takeWhile (· < p), a < p := by
      intro a ha
      simpa using List.mem_takeWhile_imp ha
    change Ascending (qs.takeWhile (· < p) ++ p :: union ps others)
    refine List.pairwise_append.mpr ⟨hq.sublist (List.takeWhile_sublist _), ?_, ?_⟩
    · exact List.pairwise_cons.mpr ⟨beyond, ih hps hothers⟩
    · intro a ha b hb
      have hap := under a ha
      rcases List.mem_cons.mp hb with rfl | hb
      · exact hap
      · exact Nat.lt_trans hap (beyond b hb)

theorem mem_foldr_union {a : Nat} (sets : List Positions) :
    a ∈ sets.foldr union [] ↔ ∃ set ∈ sets, a ∈ set := by
  induction sets with
  | nil => simp
  | cons set sets ih => simp [ih]

theorem ascending_foldr_union {sets : List Positions} (h : ∀ set ∈ sets, Ascending set) :
    Ascending (sets.foldr union []) := by
  induction sets with
  | nil => exact List.Pairwise.nil
  | cons set sets ih =>
    exact ascending_union (h set (by simp)) (ih fun s hs => h s (List.mem_cons_of_mem set hs))

private theorem spread_eq_foldr_map (step : Nat → Positions) (ps : Positions) :
    spread step ps = (ps.map step).foldr union [] := by
  rw [spread, List.foldr_map]

@[simp] theorem mem_spread {a : Nat} (step : Nat → Positions) (ps : Positions) :
    a ∈ spread step ps ↔ ∃ p ∈ ps, a ∈ step p := by
  rw [spread_eq_foldr_map, mem_foldr_union]
  simp

theorem ascending_spread {step : Nat → Positions} (h : ∀ p, Ascending (step p))
    (ps : Positions) : Ascending (spread step ps) := by
  rw [spread_eq_foldr_map]
  apply ascending_foldr_union
  intro set hset
  obtain ⟨p, -, rfl⟩ := List.mem_map.mp hset
  exact h p

theorem getLast?_eq_some_iff {ps : Positions} (h : Ascending ps) {e : Nat} :
    ps.getLast? = some e ↔ e ∈ ps ∧ ∀ a ∈ ps, a ≤ e := by
  constructor
  · intro he
    obtain ⟨front, rfl⟩ := List.getLast?_eq_some_iff.mp he
    refine ⟨by simp, ?_⟩
    intro a ha
    rcases List.mem_append.mp ha with ha | ha
    · exact Nat.le_of_lt ((List.pairwise_append.mp h).2.2 a ha e (by simp))
    · exact Nat.le_of_eq (List.mem_singleton.mp ha)
  · rintro ⟨hmem, hmax⟩
    cases hl : ps.getLast? with
    | none =>
      rw [List.getLast?_eq_none_iff.mp hl] at hmem
      simp at hmem
    | some l =>
      obtain ⟨front, rfl⟩ := List.getLast?_eq_some_iff.mp hl
      have hle : l ≤ e := hmax l (by simp)
      rcases List.mem_append.mp hmem with hmem | hmem
      · have := (List.pairwise_append.mp h).2.2 e hmem l (by simp)
        omega
      · rw [List.mem_singleton.mp hmem]

theorem mem_unseen {a start mask : Nat} {ps : Positions} :
    a ∈ unseen start mask ps ↔ a ∈ ps ∧ mask.testBit (a - start) = false := by
  simp [unseen]

theorem ascending_unseen {ps : Positions} (h : Ascending ps) (start mask : Nat) :
    Ascending (unseen start mask ps) :=
  h.sublist List.filter_sublist

theorem testBit_see (start mask i : Nat) (ps : Positions) :
    (see start mask ps).testBit i = true ↔ mask.testBit i = true ∨ ∃ p ∈ ps, p - start = i := by
  induction ps generalizing mask with
  | nil => simp [see]
  | cons p ps ih =>
    have one : (twoPow (p - start)).testBit i = true ↔ p - start = i := by
      change (2 ^ (p - start)).testBit i = true ↔ _
      simp [Nat.testBit_two_pow]
    have folded : see start mask (p :: ps) = see start (mask ||| twoPow (p - start)) ps := rfl
    rw [folded, ih, Nat.testBit_or, Bool.or_eq_true, one]
    simp [or_assoc]

end Toolpath.Pattern
