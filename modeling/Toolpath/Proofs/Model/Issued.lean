import Toolpath.Proofs.MillChain.Piles
import Toolpath.Proofs.MillChain.Tour
import Toolpath.Proofs.Model.Tasks
import Toolpath.Proofs.Program.Heights

/-!
Which element a line of a program is written for. The lines of a path are those of its header, of
its tasks and of its end; the lines of a chain are those of the passes, each for the cut that the
pass is of, and those of the way to the end, for the last cut. They are all lines of the program,
written in stretches for one element each, and every travel among them is from a clear height for
the sweep height of its element.
-/

set_option autoImplicit false

namespace Toolpath

variable {α : Type}

/-- A line with the settings of the element that it is written for. -/
structure Issued (α : Type) where
  settings : Settings α
  line : Written α

def issuedFor (settings : Settings α) (lines : List (Written α)) : List (Issued α) :=
  lines.map fun line => ⟨settings, line⟩

/-- Some lines and the writer after them. -/
abbrev Log (α : Type) := List (Issued α) × Writer α

variable [Scalar α]

namespace MillChain

/-- The passes of a chain in the order of their numbers, each with the settings of its cut. -/
def owned : MillChain α → Except (EmitError α) (List (Settings α × Pass α))
  | [] => .ok []
  | cut :: rest => do
    let piles ← cut.piles
    let later ← owned rest
    return piles.flatten.map (fun pass => (cut.settings, pass)) ++ later

def cutIssued (setup : Setup α) (owned : List (Settings α × Pass α)) :
    Writer α → List (Choice α) → List (Issued α)
  | _, [] => []
  | w, c :: later =>
    let next := cutPass w setup c
    (owned[c.index]?.toList.flatMap fun (settings, _) => issuedFor settings (w.since next)) ++
      cutIssued setup owned next later

/-- The lines of a chain. -/
def issued (chain : MillChain α) (w : Writer α) (setup : Setup α) :
    Except (EmitError α) (Log α) := do
  let piles ← chain.piles
  let owned ← chain.owned
  let (choices, milled) := fullTour setup piles w
  let done ← chain.finish milled setup
  let last := chain.getLast?.toList.flatMap fun cut =>
    issuedFor cut.settings (milled.since done)
  return (cutIssued setup owned w choices ++ last, done)

end MillChain

namespace Model

def Task.issued : Task α → Writer α → Except (EmitError α) (Log α)
  | .comment settings text, w =>
    let done := w.comment text
    .ok (issuedFor settings (w.since done), done)
  | .single setup element settings, w => do
    let done ← emitSingle element settings w setup
    return (issuedFor settings (w.since done), done)
  | .chain setup cuts, w => cuts.issued w setup

def Task.Owned (S : Settings α → Prop) : Task α → Prop
  | .comment settings _ => S settings
  | .single _ _ settings => S settings
  | .chain _ cuts => ∀ cut ∈ cuts, S cut.settings

def issuedAll : List (Task α) → Writer α → Except (EmitError α) (Log α)
  | [], w => .ok ([], w)
  | t :: ts, w => do
    let (first, next) ← t.issued w
    let (later, done) ← issuedAll ts next
    return (first ++ later, done)

/-- The lines of a path: its header and its end are written for the path itself. -/
def issued (m : Model α) : Except (EmitError α) (List (Issued α)) := do
  let sweepHeight ← m.settings.require .sweepHeight
  let head := m.header sweepHeight
  let ts ← m.tasks ⟨.identity, m.probes⟩
  let (lines, done) ← issuedAll ts head
  return issuedFor m.settings ((Writer.start (startHead sweepHeight)).since head) ++
    (lines ++ issuedFor m.settings (done.since (footer done sweepHeight)))

end Model

/-- What is written for one element at a time. -/
inductive Stretch : Settings α → Writer α → Writer α → Prop
  | comment (settings : Settings α) (w : Writer α) (text : String) :
    Stretch settings w (w.comment text)
  | single {element : Element α} {settings : Settings α} {w w' : Writer α} {setup : Setup α}
    (emits : Model.emitSingle element settings w setup = .ok w') : Stretch settings w w'
  | pass {settings : Settings α} {c : MillChain.Choice α} (w : Writer α) (setup : Setup α)
    (top : settings.get? .top = some c.pass.top)
    (sweep : settings.get? .sweepHeight = some c.pass.sweepHeight) :
    Stretch settings w (MillChain.cutPass w setup c)
  | finish {chain : MillChain α} {last : Cut α} {w w' : Writer α} {setup : Setup α}
    (ends : chain.getLast? = some last) (finishes : chain.finish w setup = .ok w') :
    Stretch last.settings w w'
  | header (m : Model α) {sweep : α} (height : m.settings.get? .sweepHeight = some sweep) :
    Stretch m.settings (.start (Model.startHead sweep)) (m.header sweep)
  | footer (settings : Settings α) (w : Writer α) (sweep : α) :
    Stretch settings w (Model.footer w sweep)

/-- The lines from one writer to another, one stretch after the other, all for settings of one
kind. -/
inductive Issues (S : Settings α → Prop) : Writer α → List (Issued α) → Writer α → Prop
  | nil (w : Writer α) : Issues S w [] w
  | cons {settings : Settings α} {w w' w'' : Writer α} {lines : List (Issued α)}
    (stretch : Stretch settings w w') (own : S settings) (rest : Issues S w' lines w'') :
    Issues S w (issuedFor settings (w.since w') ++ lines) w''

namespace Issues

variable {S : Settings α → Prop} {w w' w'' : Writer α}

private theorem single {settings : Settings α} (h : Stretch settings w w') (own : S settings) :
    Issues S w (issuedFor settings (w.since w')) w' := by
  have hcons := Issues.cons h own (.nil w')
  rwa [List.append_nil] at hcons

private theorem append {first later : List (Issued α)} (h : Issues S w first w')
    (k : Issues S w' later w'') : Issues S w (first ++ later) w'' := by
  induction h with
  | nil => exact k
  | cons stretch own _ ih =>
    rw [List.append_assoc]
    exact .cons stretch own (ih k)

end Issues

/-- A line that is no travel, or one from a clear height for the sweep height of its element. -/
def Issued.High (i : Issued α) : Prop :=
  i.line.record.kind = .travel →
    ∃ sweep, i.settings.get? .sweepHeight = some sweep ∧ Clear sweep i.line.before.z

open Writer (Adds)

namespace Model

theorem get?_of_ofSettings {settings : Settings α} {p : HoleParams α}
    (h : HoleParams.ofSettings settings = .ok p) :
    settings.get? .top = some p.top ∧ settings.get? .sweepHeight = some p.safe := by
  obtain ⟨feeds, -, h⟩ := bind_eq_ok.mp h
  obtain ⟨top, htop, h⟩ := bind_eq_ok.mp h
  obtain ⟨bottom, -, h⟩ := bind_eq_ok.mp h
  obtain ⟨safe, hsafe, h⟩ := bind_eq_ok.mp h
  obtain rfl := Except.ok.inj h
  exact ⟨Settings.get?_of_require htop, Settings.get?_of_require hsafe⟩

theorem emitSingle_cases {element : Element α} {settings : Settings α} {w w' : Writer α}
    {setup : Setup α} (h : emitSingle element settings w setup = .ok w') :
    (∃ p center, HoleParams.ofSettings settings = .ok p ∧ w' = p.drill w setup center) ∨
    (∃ p center radius bit, HoleParams.ofSettings settings = .ok p ∧
      w' = p.bore w setup center radius bit) ∨
    (∃ sweep dest rate, settings.get? .sweepHeight = some sweep ∧
      w' = (w.rapidTo sweep).travelTo dest rate) ∨
    w' = w := by
  have hsweep {dest : Point α} (h : (do
      let height ← settings.require .sweepHeight
      let rate ← settings.require .sweepRate
      return (w.rapidTo height).travelTo dest (some rate)) = Except.ok w') :
      ∃ sweep dest rate, settings.get? .sweepHeight = some sweep ∧
        w' = (w.rapidTo sweep).travelTo dest rate := by
    obtain ⟨height, hheight, h⟩ := bind_eq_ok.mp h
    obtain ⟨rate, -, h⟩ := bind_eq_ok.mp h
    exact ⟨height, dest, _, Settings.get?_of_require hheight, (Except.ok.inj h).symm⟩
  unfold emitSingle at h
  split at h
  · obtain ⟨p, hp, h⟩ := bind_eq_ok.mp h
    exact Or.inl ⟨p, _, hp, (Except.ok.inj h).symm⟩
  · obtain ⟨p, hp, h⟩ := bind_eq_ok.mp h
    obtain ⟨bit, -, h⟩ := bind_eq_ok.mp h
    exact Or.inr (Or.inl ⟨p, _, _, bit, hp, (Except.ok.inj h).symm⟩)
  · exact Or.inr (Or.inr (Or.inl (hsweep h)))
  · exact Or.inr (Or.inr (Or.inl (hsweep h)))
  · exact Or.inr (Or.inr (Or.inr (Except.ok.inj h).symm))

theorem exists_comments_header (m : Model α) (sweep : α) :
    ∃ w, m.header sweep = (preamble w sweep).travelTo m.start none ∧
      Writer.Comments (.start (startHead sweep)) w := by
  have hprobes (w : Writer α) : Writer.Comments w
      (m.probes.zipIdx.foldl (fun w b => w.comment (probeComment b.1 b.2)) w) :=
    .foldl (fun w _ => .comment w _) _ w
  have hname := Writer.Comments.comment (.start (startHead sweep)) ("path " ++ m.name.text)
  refine ⟨_, rfl, .trans ?_ (hprobes _)⟩
  split
  · exact hname.trans (.comment _ _)
  · exact hname

theorem exists_notes_header (m : Model α) (sweep : α) :
    ∃ w, m.header sweep = w.travelTo m.start none ∧
      Writer.Notes (.start (startHead sweep)) w := by
  obtain ⟨w, hheader, hcomments⟩ := m.exists_comments_header sweep
  have hpreamble : Writer.Notes w (preamble w sweep) := (Writer.Notes.other _ _).trans (.other _ _)
  exact ⟨preamble w sweep, hheader, hcomments.notes.trans hpreamble⟩

end Model

section Primitives

variable {P : Written α → Prop} (h : Writer.Primitives P) {setup : Setup α} {w w' : Writer α}

include h

theorem Model.adds_emitSingle {element : Element α} {settings : Settings α}
    (emits : emitSingle element settings w setup = .ok w') : Adds P w w' := by
  rcases emitSingle_cases emits with ⟨p, center, -, rfl⟩ | ⟨p, center, radius, bit, -, rfl⟩ |
    ⟨sweep, dest, rate, -, rfl⟩ | rfl
  · exact HoleParams.adds_drill h p w center
  · exact HoleParams.adds_bore h p w center radius bit
  · exact (h.rapid w sweep).trans (h.travel _ dest rate)
  · exact .refl _ _

theorem MillChain.adds_mill {chain : MillChain α} (mills : chain.mill w setup = .ok w') :
    Adds P w w' := by
  obtain ⟨piles, -, hfinish⟩ := Model.bind_eq_ok.mp mills
  have htour : Adds P w (fullTour setup piles w).2 := adds_tour (h.moves setup) _ _ w
  refine htour.trans (adds_finish (fun w sweep dest => ?_) hfinish)
  exact (h.lifted w sweep).trans (h.travel _ dest none)

theorem Model.adds_runAll {ts : List (Task α)}
    (comments : ∀ settings text, .comment settings text ∈ ts → ∀ w, Adds P w (w.comment text))
    (runs : runAll ts w = .ok w') : Adds P w w' := by
  induction ts generalizing w with
  | nil =>
    obtain rfl := Except.ok.inj runs
    exact .refl _ _
  | cons t ts ih =>
    rw [runAll_cons] at runs
    obtain ⟨next, hrun, hlater⟩ := bind_eq_ok.mp runs
    have hnext : Adds P w next := by
      cases t with
      | comment settings text =>
        obtain rfl := Except.ok.inj hrun
        exact comments settings text List.mem_cons_self w
      | single setup element settings => exact adds_emitSingle h hrun
      | chain setup cuts => exact MillChain.adds_mill h hrun
    exact hnext.trans (ih (fun s text ht => comments s text (List.mem_cons_of_mem _ ht)) hlater)

end Primitives

private theorem Stretch.high {settings : Settings α} {w w' : Writer α} (h : Stretch settings w w') :
    Adds (fun line => (⟨settings, line⟩ : Issued α).High) w w' := by
  have of_high {settings : Settings α} {w w' : Writer α} {sweep : α}
      (hsweep : settings.get? .sweepHeight = some sweep) (hadds : Adds (High sweep) w w') :
      Adds (fun line => (⟨settings, line⟩ : Issued α).High) w w' :=
    hadds.imp fun _ hline htravel => ⟨sweep, hsweep, hline htravel⟩
  have of_still {settings : Settings α} {w w' : Writer α} (hadds : Adds Writer.Still w w') :
      Adds (fun line => (⟨settings, line⟩ : Issued α).High) w w' :=
    hadds.imp fun _ hline htravel => absurd htravel hline
  cases h with
  | comment => exact of_still (Writer.still_comment _)
  | single emits =>
    rcases Model.emitSingle_cases emits with ⟨p, center, hp, rfl⟩ |
      ⟨p, center, radius, bit, hp, rfl⟩ | ⟨sweep, dest, rate, hsweep, rfl⟩ | rfl
    · exact of_high (Model.get?_of_ofSettings hp).2 (p.high_drill _)
    · exact of_high (Model.get?_of_ofSettings hp).2 (p.high_bore _ _ _)
    · exact of_high hsweep (((Writer.still_rapidTo sweep).high sweep).trans
        (Writer.high_travelTo (Writer.clear_rapidTo w sweep) dest rate))
    · exact of_still (.refl _ _)
  | pass w setup top sweep =>
    exact of_high sweep (MillChain.adds_cutPass _ (Writer.high_moves setup _ _) w)
  | finish ends finishes =>
    rcases MillChain.finish_cases ends finishes with rfl | ⟨sweep, dest, hsweep, rfl⟩
    · exact of_still (.refl _ _)
    · exact of_high hsweep (Writer.high_lifted_travelTo sweep dest none)
  | header m height =>
    obtain ⟨w, hheader, hnotes⟩ := m.exists_notes_header _
    have hclear : Clear _ w.head.z := Or.inl (congrArg Head.z hnotes.head)
    rw [hheader]
    exact of_high height ((hnotes.still.high _).trans (Writer.high_travelTo hclear m.start none))
  | footer _ w sweep =>
    exact of_still ((Writer.still_lifted sweep).trans (Writer.still_other "M30"))

namespace Issues

variable {S : Settings α → Prop} {w w' : Writer α} {lines : List (Issued α)}

private theorem written (h : Issues S w lines w') :
    w'.written.reverse = w.written.reverse ++ lines.map Issued.line := by
  induction h with
  | nil => simp
  | @cons settings w next _ later stretch _ _ ih =>
    have hfirst : (issuedFor settings (w.since next)).map Issued.line = w.since next := by
      rw [issuedFor, List.map_map]
      exact List.map_id _
    rw [ih, stretch.high.written_reverse, List.map_append, hfirst, List.append_assoc]

private theorem high (h : Issues S w lines w') : ∀ i ∈ lines, i.High := by
  induction h with
  | nil => simp
  | cons stretch _ _ ih =>
    intro i hi
    rcases List.mem_append.mp hi with hi | hi
    · obtain ⟨line, hline, rfl⟩ := List.mem_map.mp hi
      exact stretch.high.of_mem_since hline
    · exact ih i hi

end Issues

namespace MillChain

variable {setup : Setup α}

private theorem exists_owned {chain : MillChain α} {piles : List (List (Pass α))}
    (h : chain.piles = .ok piles) :
    ∃ owned, chain.owned = .ok owned ∧ owned.map Prod.snd = piles.flatten ∧
      ∀ o ∈ owned, (∃ cut ∈ chain, cut.settings = o.1) ∧ o.1.get? .top = some o.2.top ∧
        o.1.get? .sweepHeight = some o.2.sweepHeight := by
  induction chain generalizing piles with
  | nil =>
    obtain rfl := Except.ok.inj h
    exact ⟨[], rfl, rfl, by simp⟩
  | cons cut chain ih =>
    obtain ⟨first, hfirst, h⟩ := Model.bind_eq_ok.mp h
    obtain ⟨later, hlater, h⟩ := Model.bind_eq_ok.mp h
    obtain rfl := Except.ok.inj h
    obtain ⟨owned, howned, hpasses, howners⟩ := ih hlater
    refine ⟨first.flatten.map (fun pass => (cut.settings, pass)) ++ owned, ?_, ?_, ?_⟩
    · rw [MillChain.owned, hfirst, howned]
      rfl
    · rw [List.map_append, hpasses, List.flatten_append, List.map_map]
      exact congrArg (· ++ later.flatten) (List.map_id _)
    · intro o ho
      rcases List.mem_append.mp ho with ho | ho
      · obtain ⟨pass, hpass, rfl⟩ := List.mem_map.mp ho
        exact ⟨⟨cut, List.mem_cons_self, rfl⟩, Cut.settings_of_mem_piles hfirst hpass⟩
      · obtain ⟨⟨owner, howner, hsame⟩, hset⟩ := howners o ho
        exact ⟨⟨owner, List.mem_cons_of_mem cut howner, hsame⟩, hset⟩

private theorem getElem?_of_greedy {passes : List (Pass α × Option Nat)} {cut : List Nat}
    {w : Writer α} {choices : List (Choice α)} (h : Greedy passes setup cut w choices) :
    ∀ c ∈ choices, (passes.map Prod.fst)[c.index]? = some c.pass := by
  induction choices generalizing cut w with
  | nil => simp
  | cons c choices ih =>
    obtain ⟨⟨-, above, hget, -⟩, -, hrest⟩ := h
    intro d hd
    rcases List.mem_cons.mp hd with rfl | hd
    · rw [List.getElem?_map, hget, Option.map_some]
    · exact ih hrest d hd

/-- The tour over all passes of some piles cuts each of them once, under its own number. -/
theorem fullTour_spec [OrderedScalar α] (setup : Setup α) (piles : List (List (Pass α)))
    (w : Writer α) :
    (fullTour setup piles w).2 = cutAll setup w (fullTour setup piles w).1 ∧
      ((fullTour setup piles w).1.map Choice.index).Perm (List.range piles.flatten.length) ∧
      ∀ c ∈ (fullTour setup piles w).1, piles.flatten[c.index]? = some c.pass := by
  have hsteps := Nat.le_of_eq (length_flatten_numbered 0 piles)
  obtain ⟨hwriter, hindices, hgreedy⟩ := (piled_numbered piles).tour setup hsteps w
  have hown := getElem?_of_greedy hgreedy
  rw [map_fst_passes] at hown
  rw [flatten_numbered, ← List.range_eq_range'] at hindices
  exact ⟨hwriter, hindices, hown⟩

variable {S : Settings α → Prop}

private theorem issues_cutIssued {owned : List (Settings α × Pass α)} {passes : List (Pass α)}
    (hpasses : owned.map Prod.snd = passes)
    (howned : ∀ o ∈ owned, S o.1 ∧ o.1.get? .top = some o.2.top ∧
      o.1.get? .sweepHeight = some o.2.sweepHeight)
    (choices : List (Choice α)) (w : Writer α)
    (own : ∀ c ∈ choices, passes[c.index]? = some c.pass) :
    Issues S w (cutIssued setup owned w choices) (cutAll setup w choices) := by
  induction choices generalizing w with
  | nil => exact .nil w
  | cons c choices ih =>
    have hc := own c (by simp)
    rw [← hpasses, List.getElem?_map, Option.map_eq_some_iff] at hc
    obtain ⟨⟨settings, pass⟩, hget, rfl⟩ := hc
    obtain ⟨howner, htop, hsweep⟩ := howned _ (List.mem_of_getElem? hget)
    have hrest := ih (cutPass w setup c) fun d hd => own d (List.mem_cons_of_mem c hd)
    rw [cutIssued, hget]
    simpa [cutAll] using Issues.cons (.pass w setup htop hsweep) howner hrest

private theorem issues_finish {chain : MillChain α} {w w' : Writer α}
    (own : ∀ cut ∈ chain, S cut.settings) (h : chain.finish w setup = .ok w') :
    Issues S w (chain.getLast?.toList.flatMap fun cut => issuedFor cut.settings (w.since w'))
      w' := by
  cases hlast : chain.getLast? with
  | none =>
    unfold finish at h
    rw [hlast] at h
    obtain rfl := Except.ok.inj h
    exact .nil w
  | some last =>
    rw [Option.toList_some, List.flatMap_singleton]
    exact .single (.finish hlast h) (own last (List.mem_of_getLast? hlast))

private theorem issues_mill [OrderedScalar α] {chain : MillChain α} {w w' : Writer α}
    (own : ∀ cut ∈ chain, S cut.settings) (h : chain.mill w setup = .ok w') :
    ∃ lines, chain.issued w setup = .ok (lines, w') ∧ Issues S w lines w' := by
  obtain ⟨piles, hpiles, h⟩ := Model.bind_eq_ok.mp h
  obtain ⟨owned, howned, hpasses, howners⟩ := exists_owned hpiles
  -- The tour takes passes by their numbers, and the owners have the same numbers.
  obtain ⟨hmilled, -, hown⟩ := fullTour_spec setup piles w
  have hallowed : ∀ o ∈ owned, S o.1 ∧ o.1.get? .top = some o.2.top ∧
      o.1.get? .sweepHeight = some o.2.sweepHeight := by
    intro o ho
    obtain ⟨⟨cut, hcut, hsame⟩, hset⟩ := howners o ho
    exact ⟨hsame ▸ own cut hcut, hset⟩
  have hcut : Issues S w (cutIssued setup owned w (fullTour setup piles w).1)
      (cutAll setup w (fullTour setup piles w).1) :=
    issues_cutIssued hpasses hallowed _ w hown
  rw [← hmilled] at hcut
  refine ⟨_, ?_, hcut.append (issues_finish own h)⟩
  rw [issued, hpiles, howned]
  change (chain.finish (fullTour setup piles w).2 setup >>= _) = _
  rw [h]
  rfl

end MillChain

namespace Model

variable [OrderedScalar α] {S : Settings α → Prop}

private theorem issues_task {t : Task α} {w w' : Writer α} (own : t.Owned S)
    (h : t.run w = .ok w') :
    ∃ lines, t.issued w = .ok (lines, w') ∧ Issues S w lines w' := by
  cases t with
  | comment settings text =>
    obtain rfl := Except.ok.inj h
    exact ⟨_, rfl, .single (.comment settings w text) own⟩
  | single setup element settings =>
    have hsingle : emitSingle element settings w setup = .ok w' := h
    refine ⟨_, ?_, .single (.single hsingle) own⟩
    rw [Task.issued, hsingle]
    rfl
  | chain setup cuts => exact MillChain.issues_mill own h

private theorem issues_all {ts : List (Task α)} {w w' : Writer α} (own : ∀ t ∈ ts, t.Owned S)
    (h : runAll ts w = .ok w') :
    ∃ lines, issuedAll ts w = .ok (lines, w') ∧ Issues S w lines w' := by
  induction ts generalizing w with
  | nil =>
    obtain rfl := Except.ok.inj h
    exact ⟨[], rfl, .nil w⟩
  | cons t ts ih =>
    rw [runAll_cons] at h
    obtain ⟨next, hrun, h⟩ := bind_eq_ok.mp h
    obtain ⟨first, hfirst, hissues⟩ := issues_task (own t List.mem_cons_self) hrun
    obtain ⟨later, hlater, hrest⟩ := ih (fun t ht => own t (List.mem_cons_of_mem _ ht)) h
    refine ⟨first ++ later, ?_, hissues.append hrest⟩
    rw [issuedAll, hfirst]
    change (issuedAll ts next >>= _) = _
    rw [hlater]
    rfl

/-- If a path gives a program, the lines of the path are all lines that are written for it. -/
theorem issues_issued {m : Model α} {records : List (Record α)} (h : m.rawRecords = .ok records)
    (path : S m.settings)
    (own : ∀ ts, m.tasks ⟨.identity, m.probes⟩ = .ok ts → ∀ t ∈ ts, t.Owned S) :
    ∃ lines sweep done, m.issued = .ok lines ∧
      (lines.map fun i => i.line.record) = records ∧
      Issues S (.start (startHead sweep)) lines done := by
  obtain ⟨sweep, hsweep, h⟩ := bind_eq_ok.mp h
  obtain ⟨done, hemit, h⟩ := bind_eq_ok.mp h
  obtain rfl := Except.ok.inj h
  obtain ⟨ts, htasks, hrun⟩ := emit_ok m hemit
  obtain ⟨lines, hlines, hissues⟩ := issues_all (own ts htasks) hrun
  have hall := Issues.cons (.header m (Settings.get?_of_require hsweep)) path
    (hissues.append (.single (.footer m.settings done sweep) path))
  refine ⟨_, sweep, footer done sweep, ?_, ?_, hall⟩
  · rw [issued, hsweep]
    change (m.tasks _ >>= _) = _
    rw [htasks]
    change (issuedAll ts (m.header sweep) >>= _) = _
    rw [hlines]
    rfl
  · have hstart : (Writer.start (startHead sweep)).written.reverse = [] := rfl
    have hwritten := hall.written
    rw [hstart, List.nil_append] at hwritten
    rw [Writer.records, hwritten, List.map_map]
    rfl

theorem logged_issued {m : Model α} {records : List (Record α)} (h : m.rawRecords = .ok records) :
    ∃ lines, m.issued = .ok lines ∧ (lines.map fun i => i.line.record) = records ∧
      ∀ i ∈ lines, i.High := by
  have own : ∀ t : Task α, t.Owned fun _ => True := by
    intro t
    cases t <;> simp [Task.Owned]
  obtain ⟨lines, sweep, done, hlines, hrecords, hissues⟩ :=
    issues_issued (S := fun _ => True) h trivial fun _ _ t _ => own t
  exact ⟨lines, hlines, hrecords, hissues.high⟩

end Model

end Toolpath
