import Mathlib.Order.Bounds.Basic
import Toolpath.Proofs.Pattern.Rounds

/-!
The matcher finds what the patterns describe. A stretch of the tokens occurs as a match exactly when
its end is among the computed ones; the search for a match takes the first start and, there, the
greatest end.
-/

set_option autoImplicit false

namespace Toolpath.Pattern

variable {τ : Type}

/-- The tokens from one position up to, but not including, another. -/
def stretch (tokens : Array τ) (start stop : Nat) : List τ := (tokens.extract start stop).toList

/-- A member of the language stands in the tokens between the two positions. Beyond the end of the
tokens there is only the empty stretch. -/
def Occurs (language : List τ → Prop) (tokens : Array τ) (start stop : Nat) : Prop :=
  start ≤ stop ∧ stop ≤ max start tokens.size ∧ language (stretch tokens start stop)

private theorem stretch_self (tokens : Array τ) (start : Nat) :
    stretch tokens start start = [] := by
  simp [stretch]

theorem length_stretch {tokens : Array τ} {start stop : Nat} (h : stop ≤ max start tokens.size) :
    (stretch tokens start stop).length = stop - start := by
  simp only [stretch, Array.length_toList, Array.size_extract]
  omega

private theorem getElem?_stretch {tokens : Array τ} {start stop i : Nat} (h : i < stop - start) :
    (stretch tokens start stop)[i]? = tokens[start + i]? := by
  simp only [stretch, Array.getElem?_toList, Array.getElem?_extract]
  split
  · rfl
  · rw [eq_comm, Array.getElem?_eq_none_iff]
    omega

private theorem stretch_append {tokens : Array τ} {start middle stop : Nat} (hs : start ≤ middle)
    (hm : middle ≤ stop) :
    stretch tokens start middle ++ stretch tokens middle stop = stretch tokens start stop := by
  simp only [stretch, ← Array.toList_append, Array.extract_append_extract]
  rw [Nat.min_eq_left hs, Nat.max_eq_right hm]

private theorem exists_middle {tokens : Array τ} {start stop : Nat} {u v : List τ}
    (hs : start ≤ stop)
    (hstop : stop ≤ max start tokens.size) (h : stretch tokens start stop = u ++ v) :
    ∃ middle, start ≤ middle ∧ middle ≤ stop ∧ stretch tokens start middle = u ∧
      stretch tokens middle stop = v := by
  have hlen : stop - start = u.length + v.length := by
    rw [← length_stretch hstop, h, List.length_append]
  have hcut : stretch tokens start (start + u.length) ++ stretch tokens (start + u.length) stop =
      u ++ v := by
    rw [stretch_append (by omega) (by omega), h]
  have hfirst : (stretch tokens start (start + u.length)).length = u.length := by
    rw [length_stretch (by omega)]
    omega
  obtain ⟨hu, hv⟩ := List.append_inj hcut hfirst
  exact ⟨start + u.length, by omega, by omega, hu, hv⟩

section Occurrences

variable {tokens : Array τ} {start stop : Nat}

private theorem occurs_congr {L M : List τ → Prop} (h : ∀ w, L w ↔ M w) :
    Occurs L tokens start stop ↔ Occurs M tokens start stop := by
  simp only [Occurs, h]

private theorem occurs_nil : Occurs (· = []) tokens start stop ↔ stop = start := by
  constructor
  · rintro ⟨hs, hstop, h⟩
    have hlen := length_stretch hstop
    rw [h, List.length_nil] at hlen
    omega
  · rintro rfl
    exact ⟨le_rfl, le_max_left _ _, stretch_self tokens stop⟩

private theorem occurs_singleton {P : τ → Prop} :
    Occurs (fun w => ∃ u, w = [u] ∧ P u) tokens start stop ↔
      stop = start + 1 ∧ ∃ u, tokens[start]? = some u ∧ P u := by
  constructor
  · rintro ⟨hs, hstop, u, h, hu⟩
    have hlen := length_stretch hstop
    rw [h, List.length_singleton] at hlen
    have hget : (stretch tokens start stop)[0]? = tokens[start + 0]? := getElem?_stretch (by omega)
    rw [h] at hget
    exact ⟨by omega, u, by simpa using hget.symm, hu⟩
  · rintro ⟨rfl, u, h, hu⟩
    have hlt : start < tokens.size := (Array.getElem?_eq_some_iff.mp h).1
    have hstop : start + 1 ≤ max start tokens.size := by omega
    refine ⟨by omega, hstop, u, ?_, hu⟩
    have hlen := length_stretch hstop
    obtain ⟨v, hv⟩ := List.length_eq_one_iff.mp (hlen.trans (by omega))
    have hget : (stretch tokens start (start + 1))[0]? = tokens[start + 0]? :=
      getElem?_stretch (by omega)
    rw [hv, Nat.add_zero, h] at hget
    rw [hv, Option.some.inj hget]

private theorem occurs_append {L M : List τ → Prop} :
    Occurs (fun w => ∃ u v, w = u ++ v ∧ L u ∧ M v) tokens start stop ↔
      ∃ middle, Occurs L tokens start middle ∧ Occurs M tokens middle stop := by
  constructor
  · rintro ⟨hs, hstop, u, v, h, hu, hv⟩
    obtain ⟨middle, hm, hms, rfl, rfl⟩ := exists_middle hs hstop h
    exact ⟨middle, ⟨hm, by omega, hu⟩, ⟨hms, by omega, hv⟩⟩
  · rintro ⟨middle, ⟨hm, hmiddle, hu⟩, ⟨hs, hstop, hv⟩⟩
    exact ⟨by omega, by omega, _, _, (stretch_append hm hs).symm, hu, hv⟩

theorem mem_Icc_of_occurs {L : List τ → Prop} {p q : Nat}
    (hp : p ∈ Finset.Icc start (max start tokens.size)) (h : Occurs L tokens p q) :
    q ∈ Finset.Icc start (max start tokens.size) := by
  obtain ⟨hpq, hstop, -⟩ := h
  rw [Finset.mem_Icc] at hp ⊢
  omega

end Occurrences

variable [BEq τ]

section Language

variable {w : List τ}

theorem matches_leaf_iff {t : τ} : Matches (.leaf t) w ↔ ∃ u, w = [u] ∧ (u == t) = true := by
  constructor
  · rintro ⟨h⟩
    exact ⟨_, rfl, h⟩
  · rintro ⟨u, rfl, h⟩
    exact .leaf h

private theorem matches_anyOf_iff {ts : List τ} :
    Matches (.anyOf ts) w ↔ ∃ u, w = [u] ∧ ts.contains u = true := by
  constructor
  · rintro (_ | h)
    exact ⟨_, rfl, h⟩
  · rintro ⟨u, rfl, h⟩
    exact .anyOf h

theorem matches_seq_iff {parts : List (Pattern τ)} :
    Matches (.seq parts) w ↔ MatchesAll parts w := by
  constructor
  · intro h
    cases h with
    | seq h => exact h
  · exact .seq

theorem matches_loop_iff {body : Pattern τ} {least : Nat} {most : Option Nat} :
    Matches (.loop body least most) w ↔
      ∃ k, least ≤ k ∧ (∀ m, most = some m → k ≤ m) ∧ Repeats body k w := by
  constructor
  · intro h
    cases h with
    | loop hleast hmost h => exact ⟨_, hleast, hmost, h⟩
  · rintro ⟨k, hleast, hmost, h⟩
    exact .loop hleast hmost h

theorem matchesAll_nil_iff : MatchesAll ([] : List (Pattern τ)) w ↔ w = [] := by
  constructor
  · intro h
    cases h
    rfl
  · rintro rfl
    exact .nil

theorem matchesAll_cons_iff {p : Pattern τ} {ps : List (Pattern τ)} :
    MatchesAll (p :: ps) w ↔ ∃ u v, w = u ++ v ∧ Matches p u ∧ MatchesAll ps v := by
  constructor
  · intro h
    cases h with
    | cons hu hv => exact ⟨_, _, rfl, hu, hv⟩
  · rintro ⟨u, v, rfl, hu, hv⟩
    exact .cons hu hv

theorem repeats_zero_iff {p : Pattern τ} : Repeats p 0 w ↔ w = [] := by
  constructor
  · intro h
    cases h
    rfl
  · rintro rfl
    exact .zero

theorem repeats_succ_iff {p : Pattern τ} {k : Nat} :
    Repeats p (k + 1) w ↔ ∃ u v, w = u ++ v ∧ Repeats p k u ∧ Matches p v := by
  constructor
  · intro h
    cases h with
    | succ hu hv => exact ⟨_, _, rfl, hu, hv⟩
  · rintro ⟨u, v, rfl, hu, hv⟩
    exact .succ hu hv

end Language

variable {tokens : Array τ}

private theorem reaches_iff_repeats {body : Pattern τ}
    (h : ∀ p q, q ∈ body.ends tokens p ↔ Occurs (Matches body) tokens p q) (k start stop : Nat) :
    Reaches (body.ends tokens) k start stop ↔ Occurs (Repeats body k) tokens start stop := by
  induction k generalizing stop with
  | zero =>
    rw [occurs_congr fun _ => repeats_zero_iff, occurs_nil]
    constructor
    · intro hr
      cases hr
      rfl
    · rintro rfl
      exact .refl _
  | succ k ih =>
    rw [occurs_congr fun _ => repeats_succ_iff, occurs_append]
    constructor
    · intro hr
      cases hr with
      | tail before last => exact ⟨_, (ih _).mp before, (h _ _).mp last⟩
    · rintro ⟨middle, before, last⟩
      exact .tail ((ih _).mpr before) ((h _ _).mpr last)

mutual

/-- The ends of the matches from a start are exactly where the pattern's stretches end. -/
theorem mem_ends (tokens : Array τ) : ∀ (p : Pattern τ) (start stop : Nat),
    stop ∈ p.ends tokens start ↔ Occurs (Matches p) tokens start stop
  | .leaf t, start, stop => by
    rw [occurs_congr fun _ => matches_leaf_iff, occurs_singleton, ends]
    cases htoken : tokens[start]? with
    | none => simp
    | some u => by_cases hu : (u == t) = true <;> simp [hu]
  | .anyOf ts, start, stop => by
    rw [occurs_congr fun _ => matches_anyOf_iff, occurs_singleton, ends]
    cases htoken : tokens[start]? with
    | none => simp
    | some u => simp [and_comm]
  | .seq parts, start, stop => by
    rw [occurs_congr fun _ => matches_seq_iff, ends, mem_endsAll tokens parts]
    simp
  | .loop body least most, start, stop => by
    have inBody := mem_ends tokens body
    have range : ∀ p ∈ Finset.Icc start (max start tokens.size), ∀ q ∈ body.ends tokens p,
        q ∈ Finset.Icc start (max start tokens.size) :=
      fun p hp q hq => mem_Icc_of_occurs hp ((inBody p q).mp hq)
    rw [occurs_congr fun _ => matches_loop_iff, ends, mem_loopEnds range]
    simp only [reaches_iff_repeats inBody, Occurs]
    constructor
    · rintro ⟨k, hleast, hmost, hs, hstop, h⟩
      exact ⟨hs, hstop, k, hleast, hmost, h⟩
    · rintro ⟨hs, hstop, k, hleast, hmost, h⟩
      exact ⟨k, hleast, hmost, hs, hstop, h⟩

private theorem mem_endsAll (tokens : Array τ) : ∀ (ps : List (Pattern τ)) (starts : Positions)
    (stop : Nat), stop ∈ endsAll tokens ps starts ↔
      ∃ start ∈ starts, Occurs (MatchesAll ps) tokens start stop
  | [], starts, stop => by
    simp [endsAll, occurs_congr fun _ => matchesAll_nil_iff, occurs_nil]
  | part :: rest, starts, stop => by
    simp only [endsAll, mem_endsAll tokens rest, mem_spread, mem_ends tokens part,
      occurs_congr fun _ => matchesAll_cons_iff, occurs_append]
    constructor
    · rintro ⟨middle, ⟨start, hstart, first⟩, later⟩
      exact ⟨start, hstart, middle, first, later⟩
    · rintro ⟨start, hstart, middle, first, later⟩
      exact ⟨middle, ⟨start, hstart, first⟩, later⟩

end

mutual

private theorem ascending_ends (tokens : Array τ) : ∀ (p : Pattern τ) (start : Nat),
    Ascending (p.ends tokens start)
  | .leaf t, start => by
    rw [ends]
    split <;> simp
  | .anyOf ts, start => by
    rw [ends]
    split <;> simp
  | .seq parts, start => by
    rw [ends]
    exact ascending_endsAll tokens parts [start] (List.pairwise_singleton _ _)
  | .loop body least most, start => by
    rw [ends]
    exact ascending_loopEnds (ascending_ends tokens body) tokens.size

private theorem ascending_endsAll (tokens : Array τ) :
    ∀ (ps : List (Pattern τ)) (starts : Positions),
    Ascending starts → Ascending (endsAll tokens ps starts)
  | [], _, h => h
  | part :: rest, starts, _ => by
    rw [endsAll]
    exact ascending_endsAll tokens rest _ (ascending_spread (ascending_ends tokens part) starts)

end

section Search

def matchStops (p : Pattern τ) (tokens : Array τ) (start : Nat) : Set Nat :=
  {stop | Occurs (Matches p) tokens start stop}

/-- The positions from one on, within the tokens, at which a match starts that is not empty. -/
def matchStarts (p : Pattern τ) (tokens : Array τ) (start : Nat) : Set Nat :=
  {i | start ≤ i ∧ i < tokens.size ∧ ∃ stop ∈ matchStops p tokens i, i < stop}

variable {p : Pattern τ} {start : Nat}

private theorem longest_eq_some_iff {e : Nat} :
    p.longest tokens start = some e ↔
      IsGreatest (matchStops p tokens start) e := by
  rw [longest, getLast?_eq_some_iff (ascending_ends tokens p start)]
  simp only [mem_ends]
  rfl

private theorem matchAt_eq_some_iff {s e : Nat} :
    p.matchAt tokens start = some (s, e) ↔
      s = start ∧ start < e ∧ IsGreatest (matchStops p tokens start) e := by
  simp only [matchAt, Option.map_eq_some_iff, Option.filter_eq_some_iff, longest_eq_some_iff,
    decide_eq_true_eq, Prod.mk.injEq]
  constructor
  · rintro ⟨_, ⟨hgreatest, hlt⟩, rfl, rfl⟩
    exact ⟨rfl, hlt, hgreatest⟩
  · rintro ⟨rfl, hlt, hgreatest⟩
    exact ⟨e, ⟨hgreatest, hlt⟩, rfl, rfl⟩

private theorem matchAt_eq_none_iff :
    p.matchAt tokens start = none ↔ ¬ ∃ e ∈ matchStops p tokens start, start < e := by
  cases hlongest : p.longest tokens start with
  | none =>
    have hnil : p.ends tokens start = [] := List.getLast?_eq_none_iff.mp hlongest
    have hnone : ∀ e, e ∉ matchStops p tokens start := by
      intro e he
      have hmem := (mem_ends tokens p start e).mpr he
      rw [hnil] at hmem
      simp at hmem
    simp [matchAt, hlongest, hnone]
  | some l =>
    obtain ⟨hl, hmax⟩ := longest_eq_some_iff.mp hlongest
    by_cases hlt : start < l
    · simp only [matchAt, hlongest, Option.filter_some, decide_eq_true hlt, if_true,
        Option.map_some, reduceCtorEq, false_iff, not_not]
      exact ⟨l, hl, hlt⟩
    · simp only [matchAt, hlongest, Option.filter_some, decide_eq_false hlt, Bool.false_eq_true,
        if_false, Option.map_none, true_iff]
      rintro ⟨e, hocc, he⟩
      have := hmax hocc
      omega

private theorem findWithin_eq_some_iff {room s e : Nat} :
    p.findWithin tokens room start = some (s, e) ↔
      start ≤ s ∧ s < start + room ∧ p.matchAt tokens s = some (s, e) ∧
        ∀ i, start ≤ i → i < s → p.matchAt tokens i = none := by
  induction room generalizing start with
  | zero =>
    simp only [findWithin, reduceCtorEq, false_iff]
    omega
  | succ room ih =>
    rw [findWithin]
    cases hmatch : p.matchAt tokens start with
    | some found =>
      obtain ⟨s', e'⟩ := found
      obtain rfl := (matchAt_eq_some_iff.mp hmatch).1
      constructor
      · intro h
        obtain ⟨rfl, rfl⟩ := Prod.mk.inj (Option.some.inj h)
        exact ⟨le_rfl, by omega, hmatch, by omega⟩
      · rintro ⟨hs, -, hat, hbefore⟩
        rcases Nat.lt_or_eq_of_le hs with hlt | rfl
        · rw [hbefore s' le_rfl hlt] at hmatch
          exact absurd hmatch (by simp)
        · exact hmatch.symm.trans hat
    | none =>
      simp only [ih]
      constructor
      · rintro ⟨hs, hroom, hat, hbefore⟩
        refine ⟨by omega, by omega, hat, ?_⟩
        intro i hi his
        rcases Nat.lt_or_eq_of_le hi with hlt | rfl
        · exact hbefore i hlt his
        · exact hmatch
      · rintro ⟨hs, hroom, hat, hbefore⟩
        have hne : start ≠ s := by
          rintro rfl
          rw [hmatch] at hat
          simp at hat
        exact ⟨by omega, by omega, hat, fun i hi his => hbefore i (by omega) his⟩

private theorem findWithin_eq_none_iff {room : Nat} :
    p.findWithin tokens room start = none ↔
      ∀ i, start ≤ i → i < start + room → p.matchAt tokens i = none := by
  induction room generalizing start with
  | zero =>
    simp only [findWithin, true_iff]
    omega
  | succ room ih =>
    rw [findWithin]
    cases hmatch : p.matchAt tokens start with
    | some found =>
      simp only [reduceCtorEq, false_iff]
      intro h
      rw [h start le_rfl (by omega)] at hmatch
      simp at hmatch
    | none =>
      simp only [ih]
      constructor
      · intro h i hi hroom
        rcases Nat.lt_or_eq_of_le hi with hlt | rfl
        · exact h i hlt (by omega)
        · exact hmatch
      · intro h i hi hroom
        exact h i (by omega) (by omega)

theorem find_eq_some_iff {s e : Nat} :
    p.find tokens start = some (s, e) ↔
      IsLeast (matchStarts p tokens start) s ∧ IsGreatest (matchStops p tokens s) e := by
  rw [find, findWithin_eq_some_iff, matchAt_eq_some_iff]
  constructor
  · rintro ⟨hs, hroom, ⟨-, hlt, hgreatest⟩, hbefore⟩
    refine ⟨⟨⟨hs, by omega, e, hgreatest.1, hlt⟩, ?_⟩, hgreatest⟩
    rintro i ⟨hi, hsize, hmatch⟩
    by_contra hless
    exact matchAt_eq_none_iff.mp (hbefore i hi (by omega)) hmatch
  · rintro ⟨⟨⟨hs, hsize, stop, hocc, hstop⟩, hleast⟩, hgreatest⟩
    have hle : stop ≤ e := hgreatest.2 hocc
    refine ⟨hs, by omega, ⟨rfl, by omega, hgreatest⟩, ?_⟩
    intro i hi his
    refine matchAt_eq_none_iff.mpr fun hmatch => ?_
    have : s ≤ i := hleast ⟨hi, by omega, hmatch⟩
    omega

theorem find_eq_none_iff :
    p.find tokens start = none ↔ matchStarts p tokens start = ∅ := by
  rw [find, findWithin_eq_none_iff, Set.eq_empty_iff_forall_notMem]
  constructor
  · rintro hnone i ⟨hi, hsize, hmatch⟩
    exact matchAt_eq_none_iff.mp (hnone i hi (by omega)) hmatch
  · intro hempty i hi hroom
    refine matchAt_eq_none_iff.mpr fun hmatch => ?_
    exact hempty i ⟨hi, by omega, hmatch⟩

end Search

/-- The matcher is exact: the ends are the ends of matches, in order, and the search returns the
first start of a match that is not empty together with the last end of a match there. -/
theorem matcher_exact (p : Pattern τ) (tokens : Array τ) (start : Nat) :
    (∀ stop, stop ∈ p.ends tokens start ↔ Occurs (Matches p) tokens start stop) ∧
    Ascending (p.ends tokens start) ∧
    (∀ s e, p.find tokens start = some (s, e) ↔
      IsLeast (matchStarts p tokens start) s ∧ IsGreatest (matchStops p tokens s) e) ∧
    (p.find tokens start = none ↔ matchStarts p tokens start = ∅) :=
  ⟨mem_ends tokens p start, ascending_ends tokens p start,
    fun _ _ => find_eq_some_iff, find_eq_none_iff⟩

-- A repetition may match nothing; with a greatest count below the least there is no match.
example : (loop (.zeroOrMore (.leaf 0)) 3 none).ends #[0, 0, 1] 0 = [0, 1, 2] := by decide

example : (loop (.leaf 0) 2 (some 1)).ends #[0, 0, 1] 0 = [] := by decide

end Toolpath.Pattern
