import Toolpath.Proofs.Job.Compiled
import Toolpath.Proofs.Model.Issued
import Toolpath.Proofs.Program.Positions

/-!
Programs and the place of the tool. A program begins with absolute coordinates and the travel to its
first place. That travel is left out if the head, which is taken to be over the origin, need not be
moved; so programs whose first place is away from the origin fix their position, whatever comes
later, and probing programs fix it in no other case.
-/

set_option autoImplicit false

namespace Toolpath

variable {α : Type} [Scalar α]

/-- A travel from the origin to the place is left out. -/
def AtOrigin (p : Point α) : Prop := Point.origin.distance p ≤ Writer.moveTolerance

instance (p : Point α) : Decidable (AtOrigin p) := inferInstanceAs (Decidable (_ ≤ _))

open Writer (Adds)

namespace Model

private theorem words_units : (Record.other "G21 G90" : Record α).words =
    [['G', '2', '1'], ['G', '9', '0']] := by
  have hlist : "G21 G90".toList = ['G', '2', '1'] ++ [['G', '9', '0']].flatMap (' ' :: ·) := rfl
  have hother : (Record.other "G21 G90" : Record α).kind ≠ .comment := by simp [Record.other]
  rw [Record.words, if_neg hother]
  change "G21 G90".toList.splitOn ' ' = _
  rw [hlist, splitOn_words (by decide) (by decide)]

private theorem mode_units (absolute : Bool) :
    (Record.other "G21 G90" : Record α).mode absolute = true := by
  rw [Record.mode, words_units]
  rfl

private theorem silent_units : (Record.other "G21 G90" : Record α).Silent := by
  rw [Record.silent_iff, Record.works, Record.word?, Record.word?, words_units]
  exact ⟨rfl, rfl, rfl⟩

private theorem isCommand_height (sweep : α) :
    (Record.other ("G00 Z" ++ Scalar.coordinate sweep) : Record α).IsCommand "G00"
      [('Z', Scalar.coordinate sweep)] where
  obeyed := by simp [Record.other]
  text := by simp [Record.other, commandText, ← String.toList_inj]
  code := by decide
  args := by simp

private theorem isCommand_measure (depth plunge : α) :
    (Record.other ("G38.2 Z" ++ Scalar.coordinate depth ++ " F" ++ Writer.feedText plunge) :
      Record α).IsCommand "G38.2"
        [('Z', Scalar.coordinate depth), ('F', Writer.feedText plunge)] where
  obeyed := by simp [Record.other]
  text := by simp [Record.other, commandText, ← String.toList_inj]
  code := by decide
  args := by simp

private theorem regular_end : (Record.other "M30" : Record α).Regular := by
  have hother : (Record.other "M30" : Record α).kind ≠ .comment := by simp [Record.other]
  have hwords : (Record.other "M30" : Record α).words = [['M', '3', '0']] := by
    have hplain : ' ' ∉ "M30".toList := by decide
    rw [Record.words, if_neg hother]
    exact List.splitOn_eq_singleton hplain
  have hsilent : (Record.other "M30" : Record α).Silent := by
    rw [Record.silent_iff, Record.works, Record.word?, Record.word?, hwords]
    exact ⟨rfl, rfl, rfl⟩
  refine hsilent.regular (by simp [Record.other]) ?_
  rw [Record.mode, hwords]
  rfl

private theorem preamble_records (w : Writer α) (sweep : α) :
    (preamble w sweep).records =
      w.records ++ [.other "G21 G90", .other ("G00 Z" ++ Scalar.coordinate sweep)] := by
  simp [preamble, Writer.other]

/-- What comes in front of the first moves of a program: the code for absolute coordinates, and
nothing that takes the tool anywhere. -/
structure Begins (records : List (Record α)) : Prop where
  absolute : Absolute records
  quiet : ∀ r ∈ records, r.kind ≠ .travel ∧ r.Silent ∧ r.Regular

private theorem begins_preamble {w : Writer α} (comments : ∀ r ∈ w.records, r.kind = .comment)
    (sweep : α) :
    Begins (preamble w sweep).records := by
  have hheight := isCommand_height sweep
  have hmode := hheight.mode_eq (by decide)
  have hother (text : String) : (Record.other text : Record α).kind ≠ .travel := by
    simp [Record.other]
  rw [preamble_records]
  refine ⟨?_, fun r hr => ?_⟩
  · rw [Absolute, List.foldl_append, List.foldl_cons, mode_units, List.foldl_cons, hmode]
    rfl
  · rcases List.mem_append.mp hr with hr | hr
    · have hcomment := comments r hr
      exact ⟨by simp [hcomment], Record.silent_of_comment hcomment,
        Record.regular_of_comment hcomment⟩
    · rcases List.mem_pair.mp hr with rfl | rfl
      · exact ⟨hother _, silent_units, silent_units.regular (hother _) (mode_units true)⟩
      · have hsilent := hheight.silent rfl ⟨rfl, by decide⟩
        exact ⟨hother _, hsilent, hsilent.regular (hother _) (hmode true)⟩

private theorem regular_footer (w : Writer α) (sweep : α) :
    Adds Written.Regular w (footer w sweep) :=
  (Writer.regular_primitives.lifted w sweep).trans (.push _ _ _ regular_end)

private theorem exists_begins {m : Model α} {records : List (Record α)}
    (h : m.rawRecords = .ok records) :
    ∃ lead rest, records = lead ++ rest ∧ Begins lead ∧ (∀ r ∈ rest, r.Regular) ∧
      (¬ AtOrigin m.start → TravelsFirst records) := by
  obtain ⟨sweep, -, h⟩ := bind_eq_ok.mp h
  obtain ⟨done, hemit, h⟩ := bind_eq_ok.mp h
  obtain rfl := Except.ok.inj h
  obtain ⟨ts, -, hrun⟩ := emit_ok m hemit
  obtain ⟨w, hheader, hcomments⟩ := m.exists_comments_header sweep
  have hbegins : Begins (preamble w sweep).records :=
    begins_preamble hcomments.comments.forall_records sweep
  have hlater : Adds Written.Regular (m.header sweep) (footer done sweep) :=
    (adds_runAll Writer.regular_primitives
      (fun _ text _ _ => Writer.regular_comment text) hrun).trans (regular_footer done sweep)
  rw [hheader] at hlater
  have hmoves := (Writer.regular_travelTo m.start none).trans hlater
  refine ⟨(preamble w sweep).records, _, hmoves.records_eq, hbegins, fun r hr => ?_, fun away => ?_⟩
  · obtain ⟨line, hline, rfl⟩ := List.mem_map.mp hr
    exact hmoves.of_mem_since hline
  · have hhead : (preamble w sweep).head.xy = .origin := congrArg Head.xy hcomments.head
    have hfar : ¬ (preamble w sweep).head.xy.distance m.start ≤ Writer.moveTolerance := by
      rwa [hhead]
    obtain ⟨travel, hkind, -, hrecords⟩ := Writer.exists_records_travelTo hfar none
    rw [hlater.records_eq, hrecords, List.append_assoc]
    exact .of_travel (fun r hr => (hbegins.quiet r hr).2.1.works) hkind _

private theorem generate_iff {m : Model α} {p : Program α} (h : m.generate = .ok p) :
    (FixesPosition p.records ↔ TravelsFirst p.records) ∧
      (SameSites p.records ↔ TravelsFirst p.records) ∧
      (¬ AtOrigin m.start → TravelsFirst p.records) := by
  obtain ⟨records, hrecords, h⟩ := bind_eq_ok.mp h
  obtain rfl := Except.ok.inj h
  obtain ⟨lead, rest, rfl, hbegins, hrest, haway⟩ := exists_begins hrecords
  have hregular : ∀ r ∈ DeadTravel.remove (lead ++ rest), r.Regular := by
    refine DeadTravel.forall_remove (fun r _ => Record.Regular.asComment r) fun r hr => ?_
    exact (List.mem_append.mp hr).elim (fun hr => (hbegins.quiet r hr).2.2) (hrest r)
  have hfirst := fun away => DeadTravel.travelsFirst_remove (haway away)
  obtain ⟨later, hremoved⟩ :=
    DeadTravel.exists_remove_append (fun r hr => (hbegins.quiet r hr).1) rest
  change (FixesPosition (DeadTravel.remove _) ↔ TravelsFirst (DeadTravel.remove _)) ∧
    (SameSites (DeadTravel.remove _) ↔ TravelsFirst (DeadTravel.remove _)) ∧
    (_ → TravelsFirst (DeadTravel.remove _))
  rw [hremoved] at hregular hfirst ⊢
  have hiff := fixesPosition_iff_travelsFirst
    (fun r hr => ⟨(hbegins.quiet r hr).1, (hbegins.quiet r hr).2.1.works⟩) hbegins.absolute hregular
  exact ⟨hiff.1, hiff.2, hfirst⟩

private theorem exists_first_measure {m : Model α} {p : Program α} (h : m.probing = .ok (some p)) :
    ∃ first rest sweep w, m.probes = first :: rest ∧
      Writer.Comments (.start (startHead sweep)) w ∧
      ∃ (depth plunge : α) (done : Writer α), p.records = done.records ∧
        Adds (fun _ => True) (((preamble w sweep).travelTo first.position none).other
          ("G38.2 Z" ++ Scalar.coordinate depth ++ " F" ++ Writer.feedText plunge)) done := by
  unfold probing at h
  split at h
  · cases h
  · next hprobes =>
    obtain ⟨sweep, -, h⟩ := bind_eq_ok.mp h
    obtain ⟨feeds, -, h⟩ := bind_eq_ok.mp h
    obtain rfl := Option.some.inj (Except.ok.inj h)
    obtain ⟨first, rest, hfirst⟩ := List.exists_cons_of_ne_nil (by simpa using hprobes)
    have hother (w : Writer α) (text : String) : Adds (fun _ => True) w (w.other text) :=
      .push _ _ _ trivial
    have hmeasure (w : Writer α) (b : BedProbe α × Nat) : Adds (fun _ => True) w
        (measure sweep feeds.plunge w b.1 b.2) :=
      (((Writer.travelTo_adds b.1.position none fun _ _ => trivial).trans (hother _ _)).trans
        (hother _ _)).trans (hother _ _)
    refine ⟨first, rest, sweep, _, hfirst, .comment _ ("bed probing for path " ++ m.name.text),
      first.target - probeTravel, feeds.plunge, _, rfl, ?_⟩
    rw [hfirst, List.zipIdx_cons, List.foldl_cons]
    exact (((hother _ _).trans (hother _ _)).trans (.foldl hmeasure _ _)).trans (hother _ _)

private theorem probing_iff {m : Model α} {p : Program α} (h : m.probing = .ok (some p)) :
    ∃ first rest, m.probes = first :: rest ∧
      (FixesPosition p.records ↔ ¬ AtOrigin first.position) ∧
      (SameSites p.records ↔ ¬ AtOrigin first.position) := by
  obtain ⟨first, rest, sweep, w, hprobes, hcomments, depth, plunge, done, hrecords, hlater⟩ :=
    exists_first_measure h
  have hbegins : Begins (preamble w sweep).records :=
    begins_preamble hcomments.comments.forall_records sweep
  have hhead : (preamble w sweep).head.xy = .origin := congrArg Head.xy hcomments.head
  have hworks := (isCommand_measure depth plunge).works_iff.mpr (Or.inr rfl)
  rw [hlater.records_eq, Writer.other, Writer.records_push, List.append_assoc] at hrecords
  have haway (away : ¬ AtOrigin first.position) : FixesPosition p.records := by
    have hfar : ¬ (preamble w sweep).head.xy.distance first.position ≤ Writer.moveTolerance := by
      rwa [hhead]
    obtain ⟨travel, hkind, hregular, htravel⟩ := Writer.exists_records_travelTo hfar none
    obtain ⟨hplace, hrests⟩ := hregular.travel hkind
    have habsolute : Absolute ((preamble w sweep).records ++ [travel]) := by
      rw [Absolute, List.foldl_append, hbegins.absolute]
      exact hregular.mode
    rw [hrecords, htravel, List.append_assoc]
    exact fixesPosition_of_lead (fun r hr => (hbegins.quiet r hr).2.1.works) hrests habsolute hplace
  have hnear (near : AtOrigin first.position) :
      ¬ FixesPosition p.records ∧ ¬ SameSites p.records := by
    have hstays : (preamble w sweep).travelTo first.position none = preamble w sweep :=
      Writer.travelTo_eq_self (hhead.symm ▸ near) none
    rw [hrecords, hstays]
    exact not_fixesPosition_of_silent (fun r hr => (hbegins.quiet r hr).2.1) hworks
  exact ⟨first, rest, hprobes, ⟨fun hfixes near => (hnear near).1 hfixes, haway⟩,
    fun hsame near => (hnear near).2 hsame, fun away => (haway away).sameSites⟩

/-- When programs fix their own position. The program of a path cuts at the same places wherever the
tool was before it, and has a place in absolute coordinates in front of its first cut, if and only
if a travel comes before its first cut; so it is for every path that starts away from the origin. A
probing program does so if and only if its first probe is away from the origin. -/
theorem fixesPosition_iff (m : Model α) :
    (∀ p, m.generate = .ok p →
      (FixesPosition p.records ↔ TravelsFirst p.records) ∧
        (SameSites p.records ↔ TravelsFirst p.records) ∧
        (¬ AtOrigin m.start → TravelsFirst p.records)) ∧
    ∀ p, m.probing = .ok (some p) → ∃ first rest, m.probes = first :: rest ∧
      (FixesPosition p.records ↔ ¬ AtOrigin first.position) ∧
      (SameSites p.records ↔ ¬ AtOrigin first.position) :=
  ⟨fun _ hp => generate_iff hp, fun _ hp => probing_iff hp⟩

section Corner

open Binary64

/-- A path that starts and ends at a place, with a bed probe and a hole there. -/
def holeAt (place : Point Float) : Job Float :=
  let point := ((Layer.empty (.ofText "Hole")).addAnchor .start place).addAnchor .stop place
  let probed := point.addElement ⟨.probe place, none, .ofList [('Z', "0")]⟩
  let drilled := probed.addElement ⟨.drill place false, none, ∅⟩
  ⟨.standard, [(drilled.setParam 'T' "0").setParam 'B' "-1"]⟩

theorem fixesPosition_hole :
    ∃ (m : Model Float) (p q : Program Float), m.generate = .ok p ∧ ¬ AtOrigin m.start ∧
      m.probing = .ok (some q) ∧ (FixesPosition p.records ∧ SameSites p.records) ∧
      FixesPosition q.records ∧ SameSites q.records := by
  let job := holeAt ⟨3.0, 4.0⟩
  have run : ((Build.roots (Library.ofLayers job.defaults job.layers).1).run Build.initial).1.map
      (fun m => (decide (AtOrigin m.start), m.probes.map fun b => decide (AtOrigin b.position))) =
      [(false, [false])] := by
    decide +kernel
  have programs : ((Build.roots (Library.ofLayers job.defaults job.layers).1).run
      Build.initial).1.map (fun m => (m.generate.isOk, m.probing.toOption.join.isSome)) =
      [(true, true)] := by
    decide +kernel
  obtain ⟨m, hroots, hm⟩ := List.map_eq_singleton_iff.mp run
  rw [hroots, List.map_singleton, List.cons_eq_cons, Prod.mk.injEq] at programs
  obtain ⟨hstart, hprobes⟩ := Prod.mk.inj hm
  obtain ⟨⟨hgenerates, hmeasures⟩, -⟩ := programs
  have away : ¬ AtOrigin m.start := of_decide_eq_false hstart
  obtain ⟨p, hp⟩ : ∃ p, m.generate = .ok p := by
    cases hgenerate : m.generate with
    | error e => simp [hgenerate, Except.isOk, Except.toBool] at hgenerates
    | ok p => exact ⟨p, rfl⟩
  obtain ⟨q, hq⟩ : ∃ q, m.probing = .ok (some q) := by
    cases hprobing : m.probing with
    | error e => simp [hprobing, Except.toOption] at hmeasures
    | ok q =>
      obtain ⟨program, rfl⟩ : ∃ program, q = some program := by
        simpa [hprobing, Except.toOption, Option.isSome_iff_exists] using hmeasures
      exact ⟨program, rfl⟩
  obtain ⟨hprogram, hprobing⟩ := fixesPosition_iff m
  obtain ⟨hfixesProgram, hsameProgram, htravels⟩ := hprogram p hp
  obtain ⟨first, rest, hfirst, hfixes, hsame⟩ := hprobing q hq
  have hfar : ¬ AtOrigin first.position := by
    rw [hfirst, List.map_cons, List.cons_eq_cons] at hprobes
    exact of_decide_eq_false hprobes.1
  have htravel := htravels away
  exact ⟨m, p, q, hp, away, hq, ⟨hfixesProgram.mpr htravel, hsameProgram.mpr htravel⟩,
    hfixes.mpr hfar, hsame.mpr hfar⟩

/-- At the origin, the tool is taken nowhere before the hole is drilled and the bed is probed. -/
theorem position_unknown_at_origin :
    ∃ path ∈ ((holeAt .origin).compile .empty).1, ∃ (m : Model Float) (p : Program Float),
      m.generate = .ok path.program ∧ m.probing = .ok (some p) ∧ path.probing = some p ∧
      (¬ FixesPosition path.program.records ∧ ¬ SameSites path.program.records) ∧
      ¬ FixesPosition p.records ∧ ¬ SameSites p.records := by
  have run : ((holeAt .origin).compile .empty).1.map (fun path =>
      ((path.program.records.take 7).all (fun r => decide r.Silent),
        path.program.records[7]?.any Record.works,
        path.probing.map fun p => ((p.records.take 3).all fun r => decide r.Silent,
          p.records[3]?.any Record.works))) = [(true, true, some (true, true))] := by
    decide +kernel
  obtain ⟨path, hcompile, hpath⟩ := List.map_eq_singleton_iff.mp run
  obtain ⟨hsilent, hrest⟩ := Prod.mk.inj hpath
  obtain ⟨hworks, hprobing⟩ := Prod.mk.inj hrest
  obtain ⟨p, hp, hmeasures⟩ := Option.map_eq_some_iff.mp hprobing
  obtain ⟨hidle, hmeasure⟩ := Prod.mk.inj hmeasures
  have compiled : path ∈ ((holeAt .origin).compile .empty).1 := by simp [hcompile]
  obtain ⟨m, hgenerates, hprobes⟩ : ∃ m : Model Float,
      m.generate = .ok path.program ∧ m.probing = .ok path.probing := by
    have hfound := compiled
    rw [Job.fst_compile] at hfound
    obtain ⟨m, -, hm⟩ := List.mem_filterMap.mp hfound
    exact ⟨m, Job.programs_of_compiled? hm⟩
  have hprogram := not_fixesPosition_of_take 7 (by simpa using hsilent) hworks
  exact ⟨path, compiled, m, p, hgenerates, hp ▸ hprobes, hp, hprogram,
    not_fixesPosition_of_take 3 (by simpa using hidle) hmeasure⟩

end Corner

end Model

end Toolpath
