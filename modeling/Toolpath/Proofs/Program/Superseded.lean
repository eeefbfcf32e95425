import Toolpath.Proofs.Program.Meaning

/-!
Which travels become comments. A travel is superseded if the next record that is no comment is a
travel as well. A run that is silenced begins at the first superseded travel and takes all of them
up to its end, and for the travels outside of it nothing changes. So the pass leaves exactly the
superseded travels as comments; and it ends by itself, because every run takes a travel at least.
-/

set_option autoImplicit false

namespace Toolpath.DeadTravel

open Pattern (Matches MatchesAll Occurs Repeats matchStarts)

variable {α : Type}

/-- The first record that is no comment is a travel. -/
def Overtaken (later : List (Record α)) : Prop :=
  ∃ next ∈ later.find? (·.kind ≠ .comment), next.kind = .travel

instance (later : List (Record α)) : Decidable (Overtaken later) :=
  inferInstanceAs (Decidable (∃ next ∈ _, _))

/-- The record at a place is a travel, and the next one that is no comment is a travel too. -/
def Superseded (records : List (Record α)) (i : Nat) : Prop :=
  ∃ r ∈ records[i]?, r.kind = .travel ∧ Overtaken (records.drop (i + 1))

instance (records : List (Record α)) (i : Nat) : Decidable (Superseded records i) :=
  inferInstanceAs (Decidable (∃ r ∈ _, _))

private theorem overtaken_cons {r : Record α} {later : List (Record α)} :
    Overtaken (r :: later) ↔ r.kind = .travel ∨ r.kind = .comment ∧ Overtaken later := by
  by_cases hkind : r.kind = .comment <;> simp [Overtaken, hkind]

private theorem overtaken_append {later later' : List (Record α)}
    (h : Overtaken later ↔ Overtaken later')
    (front : List (Record α)) : Overtaken (front ++ later) ↔ Overtaken (front ++ later') := by
  induction front with
  | nil => exact h
  | cons r front ih => simp only [List.cons_append, overtaken_cons, ih]

private theorem overtaken_of_quiet {mid : List (Record α)}
    (hmid : ∀ r ∈ mid, r.kind = .travel ∨ r.kind = .comment) {last : Record α}
    (hlast : last.kind = .travel) (post : List (Record α)) : Overtaken (mid ++ last :: post) := by
  induction mid with
  | nil => exact overtaken_cons.mpr (Or.inl hlast)
  | cons r mid ih =>
    have hrest := ih fun q hq => hmid q (List.mem_cons_of_mem r hq)
    exact overtaken_cons.mpr ((hmid r (by simp)).imp_right fun hkind => ⟨hkind, hrest⟩)

private theorem overtaken_hush {mid : List (Record α)}
    (hmid : ∀ r ∈ mid, r.kind = .travel ∨ r.kind = .comment) {last : Record α}
    (hlast : last.kind = .travel) (post : List (Record α)) :
    Overtaken (mid.map hush ++ last :: post) ↔ Overtaken (mid ++ last :: post) := by
  refine iff_of_true (overtaken_of_quiet (fun r hr => ?_) hlast post)
    (overtaken_of_quiet hmid hlast post)
  obtain ⟨q, hq, rfl⟩ := List.mem_map.mp hr
  exact Or.inr (kind_hush (hmid q hq))

private theorem superseded_cons_zero {r : Record α} {later : List (Record α)} :
    Superseded (r :: later) 0 ↔ r.kind = .travel ∧ Overtaken later := by
  simp [Superseded]

private theorem superseded_cons_succ {r : Record α} {later : List (Record α)} {i : Nat} :
    Superseded (r :: later) (i + 1) ↔ Superseded later i := by
  simp [Superseded]

private theorem superseded_append_length (front later : List (Record α)) :
    Superseded (front ++ later) front.length ↔ Superseded later 0 := by
  induction front with
  | nil => rfl
  | cons r front ih => exact superseded_cons_succ.trans ih

private theorem superseded_append {later later' : List (Record α)}
    (h : Overtaken later ↔ Overtaken later') {front : List (Record α)} {i : Nat}
    (hi : i < front.length) : Superseded (front ++ later) i ↔ Superseded (front ++ later') i := by
  induction front generalizing i with
  | nil => simp at hi
  | cons r front ih =>
    cases i with
    | zero => simp only [List.cons_append, superseded_cons_zero, overtaken_append h front]
    | succ i =>
      rw [List.length_cons] at hi
      simp only [List.cons_append, superseded_cons_succ]
      exact ih (by omega)

/-- The records with every superseded travel as a comment. -/
def settled (records : List (Record α)) : List (Record α) :=
  records.mapIdx fun i r => if Superseded records i then r.asComment else r

private theorem settled_cons (r : Record α) (later : List (Record α)) :
    settled (r :: later) =
      (if r.kind = .travel ∧ Overtaken later then r.asComment else r) :: settled later := by
  simp only [settled, List.mapIdx_cons, superseded_cons_zero, superseded_cons_succ]

private theorem settled_append {later later' : List (Record α)}
    (h : Overtaken later ↔ Overtaken later')
    (hsame : settled later = settled later') (front : List (Record α)) :
    settled (front ++ later) = settled (front ++ later') := by
  induction front with
  | nil => exact hsame
  | cons r front ih =>
    simp only [List.cons_append, settled_cons, overtaken_append h front, ih]

private theorem settled_hush {mid : List (Record α)}
    (hmid : ∀ r ∈ mid, r.kind = .travel ∨ r.kind = .comment) {last : Record α}
    (hlast : last.kind = .travel) (post : List (Record α)) :
    settled (mid.map hush ++ last :: post) = settled (mid ++ last :: post) := by
  induction mid with
  | nil => rfl
  | cons r mid ih =>
    have hrest : ∀ q ∈ mid, q.kind = .travel ∨ q.kind = .comment :=
      fun q hq => hmid q (List.mem_cons_of_mem r hq)
    have hovertaken := overtaken_of_quiet hrest hlast post
    have hkind := kind_hush (hmid r (by simp))
    have hkept : ¬ ((hush r).kind = .travel ∧ Overtaken (mid.map hush ++ last :: post)) := by
      simp [hkind]
    simp only [List.map_cons, List.cons_append, settled_cons, ih hrest, if_neg hkept, hovertaken,
      and_true]
    rfl

/-- The pass without a bound: so many runs are silenced one after the other, until there is none. -/
inductive Silences : Nat → List (Record α) → Nat → List (Record α) → Prop
  | done {records : List (Record α)} {start : Nat} :
      deadRun.find (records.map (·.kind)).toArray start = none → Silences 0 records start records
  | run {records result : List (Record α)} {start first stop n : Nat} :
      deadRun.find (records.map (·.kind)).toArray start = some (first, stop) →
      Silences n (silence records first (stop - 1)) first result →
      Silences (n + 1) records start result

section Runs

variable {records result : List (Record α)} {start first stop n : Nat}

private theorem settled_silence
    (h : deadRun.find (records.map (·.kind)).toArray start = some (first, stop)) :
    settled (silence records first (stop - 1)) = settled records := by
  obtain ⟨pre, mid, last, post, rfl, hsilence, -, hlast, hmid, -⟩ := exists_silenced h
  rw [hsilence]
  exact settled_append (overtaken_hush hmid hlast post) (settled_hush hmid hlast post) pre

private theorem superseded_silence
    (h : deadRun.find (records.map (·.kind)).toArray start = some (first, stop)) {i : Nat}
    (hi : i < first) :
    Superseded (silence records first (stop - 1)) i ↔ Superseded records i := by
  obtain ⟨pre, mid, last, post, rfl, hsilence, rfl, hlast, hmid, -⟩ := exists_silenced h
  rw [hsilence]
  exact superseded_append (overtaken_hush hmid hlast post) hi

def travels (records : List (Record α)) : Nat := records.countP (·.kind = .travel)

private theorem travels_silence_lt
    (h : deadRun.find (records.map (·.kind)).toArray start = some (first, stop)) :
    travels (silence records first (stop - 1)) < travels records := by
  obtain ⟨pre, mid, last, post, rfl, hsilence, -, -, hmid, lead, hlead, hkind⟩ :=
    exists_silenced h
  have hnone : (mid.map hush).countP (·.kind = .travel) = 0 := by
    refine List.countP_eq_zero.mpr fun r hr => ?_
    obtain ⟨q, hq, rfl⟩ := List.mem_map.mp hr
    simp [kind_hush (hmid q hq)]
  have hsome : 0 < mid.countP (·.kind = .travel) :=
    List.countP_pos_iff.mpr ⟨lead, List.mem_of_mem_head? hlead, by simpa using hkind⟩
  rw [hsilence, travels, travels]
  simp only [List.countP_append, hnone]
  omega

private theorem matches_deadRun_of_comments {comments : List RecordKind}
    (h : ∀ k ∈ comments, k = .comment) : Matches deadRun (.travel :: comments ++ [.travel]) := by
  have hcomments (n : Nat) : Repeats (.leaf .comment) n (List.replicate n RecordKind.comment) := by
    induction n with
    | zero => exact .zero
    | succ n ih =>
      rw [List.replicate_succ']
      exact .succ ih (.leaf rfl)
  have hstar : Matches (.zeroOrMore (.leaf .comment)) comments := by
    rw [List.eq_replicate_of_mem h]
    exact .loop (Nat.zero_le _) nofun (hcomments comments.length)
  have hhop : Matches (.seq [.leaf .travel, .zeroOrMore (.leaf .comment)])
      (RecordKind.travel :: comments) := by
    have hboth := MatchesAll.cons (.leaf (rfl : (RecordKind.travel == .travel) = true))
      (.cons hstar .nil)
    simpa using Matches.seq hboth
  have honce : Matches (.oneOrMore (.seq [.leaf .travel, .zeroOrMore (.leaf .comment)]))
      (RecordKind.travel :: comments) :=
    .loop (le_refl 1) nofun (.succ .zero hhop)
  exact .seq (.cons honce (.cons (.leaf rfl) .nil))

private theorem occurs_of_drop {τ : Type} {language : List τ → Prop} {tokens front back : List τ}
    {i : Nat} (hsplit : tokens.drop i = front ++ back) (h : language front) :
    Occurs language tokens.toArray i (i + front.length) := by
  have hlength := congrArg List.length hsplit
  rw [List.length_drop, List.length_append] at hlength
  refine ⟨by omega, ?_, ?_⟩
  · rw [List.size_toArray]
    omega
  · have hstretch : Pattern.stretch tokens.toArray i (i + front.length) = front := by
      simp [Pattern.stretch, List.extract_eq_take_drop, hsplit]
    rwa [hstretch]

private theorem mem_matchStarts_iff {i : Nat} :
    i ∈ matchStarts deadRun (records.map (·.kind)).toArray start ↔
      start ≤ i ∧ Superseded records i := by
  constructor
  · rintro ⟨hstart, -, stop, hmatch, -⟩
    obtain ⟨pre, mid, last, post, rfl, rfl, -, hlast, hmid, lead, hlead, hkind⟩ :=
      exists_deadRun hmatch
    obtain ⟨rest, rfl⟩ := List.head?_eq_some_iff.mp hlead
    have hrest := overtaken_of_quiet (fun r hr => hmid r (List.mem_cons_of_mem lead hr)) hlast post
    rw [List.append_assoc, superseded_append_length]
    exact ⟨hstart, superseded_cons_zero.mpr ⟨hkind, hrest⟩⟩
  · rintro ⟨hstart, r, hr, hkind, next, hnext, hnextKind⟩
    obtain ⟨-, comments, back, hlater, hcomments⟩ := List.find?_eq_some_iff_append.mp hnext
    obtain ⟨hi, rfl⟩ := List.getElem?_eq_some_iff.mp hr
    have hsplit : (records.map (·.kind)).drop i =
        (.travel :: comments.map (·.kind) ++ [.travel]) ++ back.map (·.kind) := by
      rw [← List.map_drop, List.drop_eq_getElem_cons hi, hlater]
      simp [hkind, hnextKind]
    have hquiet : ∀ k ∈ comments.map (·.kind), k = .comment := by
      simpa using hcomments
    have hmatch := occurs_of_drop hsplit (matches_deadRun_of_comments hquiet)
    exact ⟨hstart, by simpa using hi, _, hmatch, by simp⟩

private theorem Silences.silenceRuns_eq (h : Silences n records start result) :
    ∀ fuel, n < fuel → silenceRuns fuel records start = result := by
  induction h with
  | done hnone =>
    intro fuel hfuel
    obtain ⟨fuel, rfl⟩ : ∃ k, fuel = k + 1 := ⟨fuel - 1, by omega⟩
    simp only [silenceRuns, hnone]
  | run hfind _ ih =>
    intro fuel hfuel
    obtain ⟨fuel, rfl⟩ : ∃ k, fuel = k + 1 := ⟨fuel - 1, by omega⟩
    simp only [silenceRuns, hfind]
    exact ih fuel (by omega)

private theorem exists_silences (records : List (Record α)) (start : Nat) :
    ∃ n ≤ travels records, ∃ result, Silences n records start result := by
  induction hcount : travels records using Nat.strong_induction_on generalizing records start with
  | _ count ih =>
    cases hfind : deadRun.find (records.map (·.kind)).toArray start with
    | none => exact ⟨0, by omega, records, .done hfind⟩
    | some found =>
      obtain ⟨first, stop⟩ := found
      have hless := travels_silence_lt hfind
      obtain ⟨n, hn, result, hrest⟩ := ih _ (hcount ▸ hless) _ first rfl
      exact ⟨n + 1, by omega, result, .run hfind hrest⟩

private theorem Silences.settled_eq (h : Silences n records start result) :
    settled result = settled records := by
  induction h with
  | done => rfl
  | run hfind _ ih => exact ih.trans (settled_silence hfind)

private theorem Silences.not_superseded (h : Silences n records start result)
    (hstart : ∀ i < start, ¬ Superseded records i) (i : Nat) : ¬ Superseded result i := by
  induction h with
  | done hnone =>
    intro hsuper
    have hle : _ ≤ i := not_lt.mp fun hlt => hstart i hlt hsuper
    have hmem := mem_matchStarts_iff.mpr ⟨hle, hsuper⟩
    rw [Pattern.find_eq_none_iff.mp hnone] at hmem
    exact hmem
  | run hfind _ ih =>
    refine ih fun j hj hsuper => ?_
    have hbefore := (superseded_silence hfind hj).mp hsuper
    have hle := not_lt.mp fun hlt => hstart j hlt hbefore
    have hleast := (Pattern.find_eq_some_iff.mp hfind).1.2 (mem_matchStarts_iff.mpr ⟨hle, hbefore⟩)
    omega

private theorem settled_of_not_superseded (h : ∀ i, ¬ Superseded records i) :
    settled records = records := by
  apply List.ext_getElem?
  intro i
  simp [settled, h]

end Runs

private theorem exists_silences_remove (records : List (Record α)) :
    ∃ n ≤ records.length, Silences n records 0 (remove records) := by
  obtain ⟨n, hn, result, hruns⟩ := exists_silences records 0
  have hle : n ≤ records.length := hn.trans List.countP_le_length
  have hresult := hruns.silenceRuns_eq (records.length + 1) (by omega)
  exact ⟨n, hle, by rwa [remove, hresult]⟩

/-- The pass makes comments of exactly the superseded travels and leaves all other records as they
are. It stops because no run is left, never because of its bound, which is one more than the number
of records. A second pass changes nothing. -/
theorem remove_exact (records : List (Record α)) :
    (remove records).length = records.length ∧
    (∀ i, (remove records)[i]? =
      records[i]?.map fun r => if Superseded records i then r.asComment else r) ∧
    (∃ n ≤ records.length, Silences n records 0 (remove records)) ∧
    remove (remove records) = remove records := by
  have eq_settled (rs : List (Record α)) :
      remove rs = settled rs ∧ settled (remove rs) = remove rs := by
    obtain ⟨n, -, hruns⟩ := exists_silences_remove rs
    have hsettled := settled_of_not_superseded (hruns.not_superseded (by simp))
    exact ⟨hsettled.symm.trans hruns.settled_eq, hsettled⟩
  have hsettled := (eq_settled records).1
  refine ⟨?_, fun i => ?_, exists_silences_remove records, ?_⟩
  · rw [hsettled, settled, List.length_mapIdx]
  · rw [hsettled, settled, List.getElem?_mapIdx]
  · exact (eq_settled (remove records)).1.trans (eq_settled records).2

-- Comments do not end a run, a change of the height does.
example : (remove <| [.travel, .comment, .travel, .travel, .lift, .travel].map fun kind =>
    (⟨kind, "", (), none⟩ : Record Unit)).map (·.kind) =
      [.comment, .comment, .comment, .travel, .lift, .travel] := by decide

end Toolpath.DeadTravel
