import Toolpath.Proofs.Model.Issued
import Toolpath.Proofs.Model.Sources
import Toolpath.Proofs.Program.Plain

/-!
The lines of what models write. There are line breaks inside of records in the names of the path and
of the paths placed in it only, each of which is written into a comment. So a program is line by
line if all these names are on one line each, and not otherwise.
-/

set_option autoImplicit false

namespace Toolpath

variable {α : Type}

def Model.OneLineNames (m : Model α) : Prop :=
  ∀ inner : Model α, inner.Within m → OneLine inner.name.text

open Writer (Adds)

variable [Scalar α]

namespace Model

private theorem plain_runAll {m : Model α} (names : m.OneLineNames) {ts : List (Task α)}
    (source : ∀ t ∈ ts, t.From m) {w w' : Writer α} (h : runAll ts w = .ok w') :
    Adds Written.Plain w w' := by
  refine adds_runAll Writer.plain_primitives (fun settings text htask w => ?_) h
  obtain ⟨p, sub, placement, ⟨outer, houter, hp⟩, -, hplaces, rfl⟩ := source _ htask
  have hsub : sub.Within outer := .placed hp hplaces (.self sub)
  have hname : OneLine sub.name.text := names sub (hsub.trans houter)
  exact Writer.plain_comment (by simp +decide [hname])

private theorem records_of_runAll {ts : List (Task α)} {w w' : Writer α}
    (h : runAll ts w = .ok w') :
    w.records ⊆ w'.records ∧
      ∀ settings text, .comment settings text ∈ ts → Record.comment text ∈ w'.records := by
  induction ts generalizing w with
  | nil =>
    obtain rfl := Except.ok.inj h
    exact ⟨List.Subset.refl _, by simp⟩
  | cons t ts ih =>
    rw [runAll_cons] at h
    obtain ⟨next, hrun, h⟩ := bind_eq_ok.mp h
    obtain ⟨hlater, hcomments⟩ := ih h
    have hnext : w.records ⊆ next.records := by
      cases t with
      | comment settings text =>
        obtain rfl := Except.ok.inj hrun
        simp [Writer.comment]
      | single setup element settings =>
        exact (adds_emitSingle Writer.plain_primitives hrun).records_subset
      | chain setup cuts => exact (MillChain.adds_mill Writer.plain_primitives hrun).records_subset
    refine ⟨List.Subset.trans hnext hlater, fun settings text hmem => ?_⟩
    rcases List.mem_cons.mp hmem with rfl | hmem
    · obtain rfl := Except.ok.inj hrun
      exact hlater (by simp [Writer.comment])
    · exact hcomments settings text hmem

private theorem plain_preamble (w : Writer α) (sweep : α) :
    Adds Written.Plain w (preamble w sweep) :=
  (Writer.plain_other (by decide)).trans (Writer.plain_other (by simp +decide))

private theorem plain_bitDiameter (m : Model α) (w : Writer α) : Adds Written.Plain w
    (match m.settings.get? .bitDiameter with
      | some bit => w.comment ("bit diameter " ++ Scalar.coordinate bit ++ " mm")
      | none => w) := by
  split
  · exact Writer.plain_comment (by simp +decide)
  · exact .refl _ _

private theorem plain_header (m : Model α) (sweep : α) :
    Adds Written.Plain ((Writer.start (startHead sweep)).comment ("path " ++ m.name.text))
      (m.header sweep) := by
  have hprobes (w : Writer α) : Adds Written.Plain w
      (m.probes.zipIdx.foldl (fun w b => w.comment (probeComment b.1 b.2)) w) := by
    refine .foldl (fun w b => Writer.plain_comment ?_) _ w
    simp +decide [probeComment, OneLine.point]
  exact (((m.plain_bitDiameter _).trans (hprobes _)).trans (plain_preamble _ sweep)).trans
    (Writer.plain_travelTo m.start none)

private theorem plain_footer (w : Writer α) (sweep : α) : Adds Written.Plain w (footer w sweep) :=
  (Writer.plain_primitives.lifted w sweep).trans (Writer.plain_other (by decide))

private theorem plain_rawRecords {m : Model α} (names : m.OneLineNames) {records : List (Record α)}
    (h : m.rawRecords = .ok records) : ∀ r ∈ records, r.Plain := by
  obtain ⟨sweep, -, h⟩ := bind_eq_ok.mp h
  obtain ⟨done, hemit, h⟩ := bind_eq_ok.mp h
  obtain rfl := Except.ok.inj h
  obtain ⟨ts, htasks, hrun⟩ := emit_ok m hemit
  have htasks := plain_runAll names (from_of_mem_tasks m htasks) hrun
  have hname : OneLine ("path " ++ m.name.text) := by
    simp +decide [names m (.self m)]
  have hheader : Adds Written.Plain (.start (startHead sweep)) (m.header sweep) :=
    (Writer.plain_comment hname).trans (plain_header m sweep)
  exact ((hheader.trans htasks).trans (plain_footer done sweep)).forall_records

theorem lineByLine_of_generate {m : Model α} (names : m.OneLineNames) {p : Program α}
    (h : m.generate = .ok p) : p.LineByLine := by
  obtain ⟨records, hrecords, h⟩ := bind_eq_ok.mp h
  obtain rfl := Except.ok.inj h
  have hplain := DeadTravel.plain_remove (plain_rawRecords names hrecords)
  exact Program.lineByLine_ofRecords m.name hplain

private theorem plain_measure (sweep plunge : α) (w : Writer α) (probe : BedProbe α) (index : Nat) :
    Adds Written.Plain w (measure sweep plunge w probe index) :=
  (((Writer.plain_travelTo probe.position none).trans
    (Writer.plain_other (by simp +decide))).trans
    (Writer.plain_other (by simp +decide))).trans (Writer.plain_other (by simp +decide))

private theorem plain_measures (m : Model α) (sweep plunge : α) (w : Writer α) :
    Adds Written.Plain w
    (m.probes.zipIdx.foldl (fun w (probe, i) => measure sweep plunge w probe i) w) := by
  refine .foldl ?_ _ w
  rintro w ⟨probe, i⟩
  exact plain_measure sweep plunge w probe i

theorem mem_records_of_generate {m : Model α} {p : Program α} (h : m.generate = .ok p) :
    Record.comment ("path " ++ m.name.text) ∈ p.records ∧
      ∃ ts, m.tasks ⟨.identity, m.probes⟩ = .ok ts ∧
        ∀ settings text, .comment settings text ∈ ts → Record.comment text ∈ p.records := by
  obtain ⟨records, hrecords, h⟩ := bind_eq_ok.mp h
  obtain rfl := Except.ok.inj h
  obtain ⟨sweep, -, hrecords⟩ := bind_eq_ok.mp hrecords
  obtain ⟨done, hemit, hrecords⟩ := bind_eq_ok.mp hrecords
  obtain rfl := Except.ok.inj hrecords
  obtain ⟨ts, htasks, hrun⟩ := emit_ok m hemit
  obtain ⟨hheader, hcomments⟩ := records_of_runAll hrun
  have hfooter := (plain_footer done sweep).records_subset
  have hname : Record.comment ("path " ++ m.name.text) ∈ (m.header sweep).records :=
    (plain_header m sweep).records_subset (by simp [Writer.comment])
  refine ⟨DeadTravel.mem_remove (hfooter (hheader hname)) rfl, ts, htasks, ?_⟩
  intro settings text hmem
  exact DeadTravel.mem_remove (hfooter (hcomments settings text hmem)) rfl

theorem lineByLine_probing_iff {m : Model α} {p : Program α} (h : m.probing = .ok (some p)) :
    p.LineByLine ↔ OneLine m.name.text := by
  unfold probing at h
  split at h
  · cases h
  · obtain ⟨sweep, -, h⟩ := bind_eq_ok.mp h
    obtain ⟨feeds, -, h⟩ := bind_eq_ok.mp h
    obtain rfl := Option.some.inj (Except.ok.inj h)
    let text := "bed probing for path " ++ m.name.text
    have htext : OneLine text ↔ OneLine m.name.text := by simp +decide [text]
    have hend (w : Writer α) : Adds Written.Plain w (w.other "M30") :=
      Writer.plain_other (by decide)
    have hlater : Adds Written.Plain ((Writer.start (startHead sweep)).comment text) _ :=
      ((plain_preamble _ sweep).trans (m.plain_measures sweep feeds.plunge _)).trans (hend _)
    constructor
    · intro hlines
      have hcomment : OneLine (Record.comment text : Record α).text :=
        hlines.oneLine _ (hlater.records_subset (by simp [Writer.comment]))
      exact htext.mp ((OneLine.comment_iff text).mp hcomment)
    · intro hname
      have hwritten := (Writer.plain_comment (htext.mpr hname)).trans hlater
      exact Program.lineByLine_ofRecords m.name hwritten.forall_records

end Model

end Toolpath
