import Toolpath.Program.DeadTravel
import Toolpath.Program.Statistics
import Toolpath.Proofs.Pattern.Exactness

/-!
Dead travels mean nothing. A machine goes where a travel tells it, whatever it did before, and
nothing else is known about it; such a machine cannot tell a program from the same program with its
dead travels as comments. The totals of the cutting moves are those of one such machine.
-/

set_option autoImplicit false

namespace Toolpath

universe u v

def Record.isAction {α : Type} (r : Record α) : Bool := r.kind != .comment && r.kind != .travel

/-- A reading of programs. The state of the machine is the place of the tool and all else. -/
structure Machine (α : Type) (π : Type u) (σ : Type v) where
  /-- The place where a travel leaves the tool. -/
  target : Record α → π
  /-- What any other record that is no comment does. -/
  act : Record α → π × σ → π × σ

namespace Machine

variable {α : Type} {π : Type u} {σ : Type v}

def step (m : Machine α π σ) (s : π × σ) (r : Record α) : π × σ :=
  match r.kind with
  | .comment => s
  | .travel => (m.target r, s.2)
  | _ => m.act r s

/-- The state after a program. -/
def run (m : Machine α π σ) (s : π × σ) (records : List (Record α)) : π × σ :=
  records.foldl m.step s

/-- The actions of a program, each with the state right before it. -/
def trace (m : Machine α π σ) : π × σ → List (Record α) → List ((π × σ) × Record α)
  | _, [] => []
  | s, r :: rest =>
    if r.isAction then (s, r) :: trace m (m.step s r) rest else trace m (m.step s r) rest

variable (m : Machine α π σ)

private theorem run_append (s : π × σ) (xs ys : List (Record α)) :
    m.run s (xs ++ ys) = m.run (m.run s xs) ys :=
  List.foldl_append

private theorem trace_append (s : π × σ) (xs ys : List (Record α)) :
    m.trace s (xs ++ ys) = m.trace s xs ++ m.trace (m.run s xs) ys := by
  induction xs generalizing s with
  | nil => rfl
  | cons x xs ih =>
    have hrun : m.run s (x :: xs) = m.run (m.step s x) xs := rfl
    rw [List.cons_append, trace, trace, ih, hrun]
    split <;> rfl

private theorem step_travel {r : Record α} (h : r.kind = .travel) (s : π × σ) :
    m.step s r = (m.target r, s.2) := by
  simp [step, h]

private theorem quiet {records : List (Record α)}
    (h : ∀ r ∈ records, r.kind = .travel ∨ r.kind = .comment) (s : π × σ) :
    m.trace s records = [] ∧ (m.run s records).2 = s.2 := by
  induction records generalizing s with
  | nil => exact ⟨rfl, rfl⟩
  | cons r rest ih =>
    have hrest := ih (fun x hx => h x (List.mem_cons_of_mem r hx)) (m.step s r)
    have hstep : (m.step s r).2 = s.2 := by
      rcases h r (by simp) with hr | hr <;> simp [step, hr]
    have hnot : r.isAction = false := by
      rcases h r (by simp) with hr | hr <;> simp [Record.isAction, hr]
    constructor
    · rw [trace, hnot]
      exact hrest.1
    · exact hrest.2.trans hstep

end Machine

namespace DeadTravel

variable {α : Type}

/-- A record with a travel as a comment. -/
def hush (r : Record α) : Record α := if r.kind = .travel then r.asComment else r

theorem kind_hush {r : Record α} (h : r.kind = .travel ∨ r.kind = .comment) :
    (hush r).kind = .comment := by
  rcases h with h | h <;> simp [hush, Record.asComment, h]

private theorem repeats_forall {P : RecordKind → Prop} {body : Pattern RecordKind}
    (h : ∀ w, Pattern.Matches body w → ∀ k ∈ w, P k) (n : Nat) :
    ∀ w, Pattern.Repeats body n w → ∀ k ∈ w, P k := by
  induction n with
  | zero =>
    intro w hw
    simp [Pattern.repeats_zero_iff.mp hw]
  | succ n ih =>
    intro w hw
    obtain ⟨u, v, rfl, hu, hv⟩ := Pattern.repeats_succ_iff.mp hw
    intro k hk
    rcases List.mem_append.mp hk with hk | hk
    · exact ih u hu k hk
    · exact h v hv k hk

private theorem matches_leaf {t : RecordKind} {w : List RecordKind} :
    Pattern.Matches (.leaf t) w ↔ w = [t] := by
  simp [Pattern.matches_leaf_iff]

private theorem matches_hop {w : List RecordKind}
    (h : Pattern.Matches (.seq [.leaf .travel, .zeroOrMore (.leaf .comment)]) w) :
    ∃ c, w = .travel :: c ∧ ∀ k ∈ c, k = .comment := by
  simp only [Pattern.zeroOrMore, Pattern.matches_seq_iff, Pattern.matchesAll_cons_iff,
    Pattern.matchesAll_nil_iff, Pattern.matches_loop_iff, matches_leaf] at h
  obtain ⟨_, _, rfl, rfl, c, _, rfl, ⟨j, -, -, hc⟩, rfl⟩ := h
  have comment : ∀ w, Pattern.Matches (.leaf .comment) w → ∀ k ∈ w, k = RecordKind.comment := by
    simp [matches_leaf]
  exact ⟨c, by simp, repeats_forall comment j c hc⟩

private theorem repeats_head {t : RecordKind} {body : Pattern RecordKind}
    (h : ∀ w, Pattern.Matches body w → ∃ u, w = t :: u) (n : Nat) :
    ∀ w, Pattern.Repeats body (n + 1) w → ∃ u, w = t :: u := by
  induction n with
  | zero =>
    intro w hw
    obtain ⟨u, v, rfl, hu, hv⟩ := Pattern.repeats_succ_iff.mp hw
    rw [Pattern.repeats_zero_iff.mp hu]
    exact h v hv
  | succ n ih =>
    intro w hw
    obtain ⟨u, v, rfl, hu, -⟩ := Pattern.repeats_succ_iff.mp hw
    obtain ⟨u', rfl⟩ := ih u hu
    exact ⟨u' ++ v, rfl⟩

private theorem matches_deadRun {w : List RecordKind} (h : Pattern.Matches deadRun w) :
    ∃ u, w = .travel :: u ++ [.travel] ∧ ∀ k ∈ u, k = .travel ∨ k = .comment := by
  simp only [deadRun, Pattern.oneOrMore, Pattern.matches_seq_iff, Pattern.matchesAll_cons_iff,
    Pattern.matchesAll_nil_iff, matches_leaf] at h
  obtain ⟨u, _, rfl, hloop, _, _, rfl, rfl, rfl⟩ := h
  obtain ⟨n, hn, -, hu⟩ := Pattern.matches_loop_iff.mp hloop
  have quiet : ∀ k ∈ u, k = .travel ∨ k = .comment := by
    refine repeats_forall (fun v hv k hk => ?_) n u hu
    obtain ⟨c, rfl, hc⟩ := matches_hop hv
    exact (List.mem_cons.mp hk).imp_right (hc k)
  obtain ⟨n, rfl⟩ : ∃ m, n = m + 1 := ⟨n - 1, by omega⟩
  obtain ⟨u, rfl⟩ := repeats_head (fun v hv => (matches_hop hv).imp fun _ h => h.1) n u hu
  exact ⟨u, by simp, fun k hk => quiet k (List.mem_cons_of_mem _ hk)⟩

private theorem mapIdx_eq_map {β γ : Type} {f : Nat → β → γ} {g : β → γ} {xs : List β}
    (h : ∀ i < xs.length, ∀ x, f i x = g x) : xs.mapIdx f = xs.map g := by
  apply List.ext_getElem
  · simp
  · intro i hi _
    rw [List.length_mapIdx] at hi
    rw [List.getElem_mapIdx, List.getElem_map, h i hi]

private theorem silence_append (pre mid post : List (Record α)) :
    silence (pre ++ mid ++ post) pre.length (pre.length + mid.length) =
      pre ++ mid.map hush ++ post := by
  have before : ∀ i < pre.length, ¬ pre.length ≤ i := by
    intro i hi
    omega
  have within : ∀ i < mid.length, i + pre.length < pre.length + mid.length := by
    intro i hi
    omega
  rw [silence, List.mapIdx_append, List.mapIdx_append, mapIdx_eq_map (g := id),
    mapIdx_eq_map (g := hush), mapIdx_eq_map (g := id), List.map_id, List.map_id]
  -- The places behind the part come first, then those in it, then those before it.
  · intro i _ r
    simp
  · intro i hi r
    simp [hush, within i hi]
  · intro i hi r
    simp [before i hi]

theorem exists_deadRun {records : List (Record α)} {first stop : Nat}
    (h : Pattern.Occurs (Pattern.Matches deadRun) (records.map (·.kind)).toArray first stop) :
    ∃ pre mid last post, records = pre ++ mid ++ last :: post ∧ pre.length = first ∧
      pre.length + mid.length = stop - 1 ∧ last.kind = .travel ∧
      (∀ r ∈ mid, r.kind = .travel ∨ r.kind = .comment) ∧
      ∃ lead ∈ mid.head?, lead.kind = .travel := by
  obtain ⟨hle, hstop, hmatch⟩ := h
  obtain ⟨kinds, hkinds, hquiet⟩ := matches_deadRun hmatch
  have hlong : stop - first = kinds.length + 2 := by
    rw [← Pattern.length_stretch hstop, hkinds]
    simp
  have hsize : (records.map (·.kind)).toArray.size = records.length := by simp
  rw [hsize] at hstop
  have hpart : ((records.drop first).take (stop - first)).map (·.kind) =
      (.travel :: kinds) ++ [.travel] := by
    rw [← hkinds]
    simp [Pattern.stretch, List.extract_eq_take_drop, List.map_take, List.map_drop]
  obtain ⟨mid, lasts, hmid, hmidKinds, hlast⟩ := List.map_eq_append_iff.mp hpart
  obtain ⟨last, rfl, hlastKind⟩ := List.map_eq_singleton_iff.mp hlast
  obtain ⟨lead, rest, rfl, hlead, hrest⟩ := List.map_eq_cons_iff.mp hmidKinds
  have hlen : rest.length = kinds.length := by rw [← hrest, List.length_map]
  refine ⟨records.take first, lead :: rest, last, records.drop stop, ?_, ?_, ?_, hlastKind, ?_,
    lead, rfl, hlead⟩
  · have hbehind : (records.drop first).drop (stop - first) = records.drop stop := by
      rw [List.drop_drop]
      congr 1
      omega
    calc records = records.take first ++ records.drop first := by rw [List.take_append_drop]
      _ = records.take first ++ ((lead :: rest ++ [last]) ++ records.drop stop) := by
        rw [← hmid, ← hbehind, List.take_append_drop (stop - first)]
      _ = records.take first ++ lead :: rest ++ last :: records.drop stop := by simp
  · rw [List.length_take]
    omega
  · rw [List.length_take, List.length_cons]
    omega
  · intro r hr
    rcases List.mem_cons.mp hr with rfl | hr
    · exact Or.inl hlead
    · apply hquiet
      rw [← hrest]
      exact List.mem_map_of_mem hr

theorem exists_silenced {records : List (Record α)} {start first stop : Nat}
    (h : deadRun.find (records.map (·.kind)).toArray start = some (first, stop)) :
    ∃ pre mid last post, records = pre ++ (mid ++ last :: post) ∧
      silence records first (stop - 1) = pre ++ (mid.map hush ++ last :: post) ∧
      pre.length = first ∧ last.kind = .travel ∧
      (∀ r ∈ mid, r.kind = .travel ∨ r.kind = .comment) ∧
      ∃ lead ∈ mid.head?, lead.kind = .travel := by
  have hmatch := (Pattern.find_eq_some_iff.mp h).2.1
  obtain ⟨pre, mid, last, post, rfl, rfl, hstop, hlast, hmid, hlead⟩ := exists_deadRun hmatch
  refine ⟨pre, mid, last, post, List.append_assoc _ _ _, ?_, rfl, hlast, hmid, hlead⟩
  rw [← hstop, silence_append, List.append_assoc]

/-- What every silenced run keeps is kept without dead travels. -/
theorem remove_induction {Q : List (Record α) → Prop} {records : List (Record α)}
    (silenced : ∀ rs start first stop,
      deadRun.find (rs.map (·.kind)).toArray start = some (first, stop) → Q rs →
        Q (silence rs first (stop - 1)))
    (h : Q records) : Q (remove records) := by
  have hruns (fuel : Nat) : ∀ rs start, Q rs → Q (silenceRuns fuel rs start) := by
    induction fuel with
    | zero => exact fun _ _ h => h
    | succ fuel ih =>
      intro rs start h
      rw [silenceRuns]
      split
      · exact h
      · next first stop hfind => exact ih _ first (silenced rs start first stop hfind h)
  exact hruns _ records 0 h

theorem forall_remove {P : Record α → Prop} (comment : ∀ r, P r → P r.asComment)
    {records : List (Record α)} (h : ∀ r ∈ records, P r) : ∀ r ∈ remove records, P r := by
  refine remove_induction (Q := fun rs => ∀ r ∈ rs, P r) (fun rs _ first stop _ h r hr => ?_) h
  obtain ⟨i, hi, rfl⟩ := List.mem_mapIdx.mp hr
  have hkept := h rs[i] (List.getElem_mem hi)
  split
  · exact comment _ hkept
  · exact hkept

theorem exists_remove_append {front : List (Record α)} (still : ∀ r ∈ front, r.kind ≠ .travel)
    (records : List (Record α)) : ∃ later, remove (front ++ records) = front ++ later := by
  refine remove_induction (Q := fun rs => ∃ later, rs = front ++ later) ?_ ⟨records, rfl⟩
  rintro _ _ first stop - ⟨later, rfl⟩
  have hfront : front.mapIdx (fun i r =>
      if first ≤ i ∧ i < stop - 1 ∧ r.kind = .travel then r.asComment else r) = front := by
    apply List.ext_getElem
    · simp
    · intro i _ hi
      simp [still _ (List.getElem_mem hi)]
  rw [silence, List.mapIdx_append, hfront]
  exact ⟨_, rfl⟩

section Meaning

variable {π : Type u} {σ : Type v} (m : Machine α π σ)

private theorem meaning_hush {mid : List (Record α)} {last : Record α}
    (hmid : ∀ r ∈ mid, r.kind = .travel ∨ r.kind = .comment) (hlast : last.kind = .travel)
    (s : π × σ) :
    m.trace s (mid.map hush) = m.trace s mid ∧
      m.step (m.run s (mid.map hush)) last = m.step (m.run s mid) last := by
  have hhushed : ∀ r ∈ mid.map hush, r.kind = .travel ∨ r.kind = .comment := by
    intro r hr
    obtain ⟨x, hx, rfl⟩ := List.mem_map.mp hr
    exact Or.inr (kind_hush (hmid x hx))
  obtain ⟨htrace, hrun⟩ := m.quiet hmid s
  obtain ⟨htrace', hrun'⟩ := m.quiet hhushed s
  constructor
  · rw [htrace, htrace']
  · rw [m.step_travel hlast, m.step_travel hlast, hrun, hrun']

private theorem meaning_silence {records : List (Record α)} {start first stop : Nat}
    (h : deadRun.find (records.map (·.kind)).toArray start = some (first, stop)) (s : π × σ) :
    m.trace s (silence records first (stop - 1)) = m.trace s records ∧
      m.run s (silence records first (stop - 1)) = m.run s records := by
  obtain ⟨pre, mid, last, post, rfl, hsilence, -, hlast, hmid, -⟩ := exists_silenced h
  obtain ⟨htrace, hstep⟩ := meaning_hush m hmid hlast (m.run s pre)
  have hrun : ∀ t : π × σ, m.run t (last :: post) = m.run (m.step t last) post := fun _ => rfl
  have htail : ∀ t : π × σ, m.trace t (last :: post) = m.trace (m.step t last) post := by
    intro t
    simp [Machine.trace, Record.isAction, hlast]
  rw [hsilence]
  simp only [m.trace_append, m.run_append, hrun, htail, htrace, hstep, and_self]

private theorem meaning_silenceRuns (fuel : Nat) (records : List (Record α)) (start : Nat)
    (s : π × σ) :
    m.trace s (silenceRuns fuel records start) = m.trace s records ∧
      m.run s (silenceRuns fuel records start) = m.run s records := by
  induction fuel generalizing records start with
  | zero => exact ⟨rfl, rfl⟩
  | succ fuel ih =>
    rw [silenceRuns]
    split
    · exact ⟨rfl, rfl⟩
    · next first stop hfind =>
      obtain ⟨htrace, hrun⟩ := ih (silence records first (stop - 1)) first
      obtain ⟨htrace', hrun'⟩ := meaning_silence m hfind s
      exact ⟨htrace.trans htrace', hrun.trans hrun'⟩

end Meaning

end DeadTravel

namespace Statistics

variable {α : Type} [Scalar α]

def cutting (s : Statistics α) : α × α × α × α :=
  (s.millLength, s.drillLength, s.millMinutes, s.drillMinutes)

def counter : Machine α Unit (Statistics α) where
  target _ := ()
  act r s := ((), s.2.record r)

private theorem cutting_record {s t : Statistics α} (h : s.cutting = t.cutting) (r : Record α) :
    (s.record r).cutting = (t.record r).cutting := by
  simp only [cutting, Prod.mk.injEq] at h
  obtain ⟨hmill, hdrill, hmillMinutes, hdrillMinutes⟩ := h
  cases hkind : r.kind <;>
    simp [cutting, record, hkind, hmill, hdrill, hmillMinutes, hdrillMinutes]

private theorem cutting_counter_step (s : Statistics α) (r : Record α) :
    (counter.step ((), s) r).2.cutting = (s.record r).cutting := by
  cases hkind : r.kind <;> simp [counter, Machine.step, cutting, record, hkind]

private theorem cutting_foldl_record (records : List (Record α)) {s t : Statistics α}
    (h : s.cutting = t.cutting) :
    (records.foldl record s).cutting = (counter.run ((), t) records).2.cutting := by
  induction records generalizing s t with
  | nil => exact h
  | cons r rest ih =>
    have hstep : (s.record r).cutting = (counter.step ((), t) r).2.cutting :=
      (cutting_record h r).trans (cutting_counter_step t r).symm
    exact ih hstep

end Statistics

/-- Without its dead travels a program means the same to every machine: the same actions in the same
states, and the same state in the end. The totals of its cutting moves are the same. -/
theorem DeadTravel.meaning_remove {α : Type} [Scalar α] (records : List (Record α)) :
    (∀ {π : Type u} {σ : Type v} (m : Machine α π σ) (s : π × σ),
      m.trace s (DeadTravel.remove records) = m.trace s records ∧
        m.run s (DeadTravel.remove records) = m.run s records) ∧
    (Statistics.ofRecords (DeadTravel.remove records)).cutting =
      (Statistics.ofRecords records).cutting := by
  constructor
  · intro π σ m s
    exact DeadTravel.meaning_silenceRuns m _ records 0 s
  · have counted : ∀ rs : List (Record α), (Statistics.ofRecords rs).cutting =
        (Statistics.counter.run ((), Statistics.empty) rs).2.cutting :=
      fun rs => Statistics.cutting_foldl_record rs rfl
    have same := (DeadTravel.meaning_silenceRuns Statistics.counter (records.length + 1) records 0
      ((), Statistics.empty)).2
    rw [counted, counted, DeadTravel.remove, same]

end Toolpath
