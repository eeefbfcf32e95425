import Mathlib
import Toolpath.Proofs.Model.Issued
import Toolpath.Proofs.Program.Places
import Toolpath.Proofs.Program.Words
import Toolpath.Proofs.Route.Soundness

/-!
The circular lines of a chain. All moves but the cuts of arcs are straight, so a circular line cuts
the arc of a pass in one of its directions: it leads from where the way to the start of the arc has
ended to the end of the arc.
-/

set_option autoImplicit false

namespace Toolpath

namespace Written

variable {α : Type}

/-- A line that a machine does not obey by a move along a circle. -/
def Straight (line : Written α) : Prop := ¬ line.record.Circular

private theorem straight_of_command {line : Written α} {code : String} {args : List (Char × String)}
    (h : line.record.IsCommand code args) (hcode : code = "G00" ∨ code = "G01") :
    line.Straight := by
  intro hcircular
  rcases h.circular_iff.mp hcircular with rfl | rfl
  · revert hcode
    decide
  · revert hcode
    decide

end Written

open Writer (Adds)
open Written (Straight)

section Straight

variable {α : Type} [Scalar α] {setup : Setup α}

namespace Writer

variable (w : Writer α)

theorem straight_lift (z : α) {text : String} (h : ' ' ∉ text.toList) :
    Adds Straight w (w.lift z text) :=
  (commands_lift z h).imp fun _ hline => Written.straight_of_command hline.2 (Or.inl rfl)

theorem straight_travelTo (dest : Point α) (rate : Option α) :
    Adds Straight w (w.travelTo dest rate) :=
  (commands_travelTo dest rate).imp fun _ ⟨_, _, hcode, hcommand⟩ =>
    Written.straight_of_command hcommand hcode

theorem straight_lifted (sweep : α) : Adds Straight w (w.lifted sweep) := by
  unfold lifted
  split
  · exact w.straight_lift sweep (blank_notMem_coordinate sweep)
  · exact .refl _ _

theorem straight_rapidToCorrected (z : α) : Adds Straight w (w.rapidToCorrected setup z) :=
  w.straight_lift z (blank_notMem_height setup _ z)

theorem straight_cutTo {kind : RecordKind} (cuts : kind.isCutting = true) (z feed : α) :
    Adds Straight w (w.cutTo kind setup z feed) :=
  (commands_cutTo cuts setup z feed).imp fun _ hline =>
    Written.straight_of_command hline.2 (Or.inr rfl)

theorem straight_moveToHeight (z feed : α) : Adds Straight w (w.moveToHeight setup z feed) := by
  unfold moveToHeight
  split
  · exact w.straight_cutTo rfl z feed
  · split
    · exact w.straight_rapidToCorrected z
    · exact .refl _ _

theorem straight_millLine (dest : Point α) (z feed : α) :
    Adds Straight w (w.millLine setup dest z feed) :=
  (commands_millLine setup dest z feed).imp fun _ ⟨_, hcommand⟩ =>
    Written.straight_of_command hcommand (Or.inr rfl)

end Writer

namespace MillChain

private theorem straight_approach (pass : Pass α) (w : Writer α) (dest : Point α) :
    Adds Straight w (approach w setup dest pass) :=
  adds_approach_of pass
    (fun w dest =>
      (w.straight_lifted pass.sweepHeight).trans (Writer.straight_travelTo _ dest none))
    (fun w => w.straight_rapidToCorrected pass.top) w dest

theorem straight_finish {chain : MillChain α} {w w' : Writer α}
    (h : chain.finish w setup = .ok w') : Adds Straight w w' :=
  adds_finish (fun w sweep _ => (w.straight_lifted sweep).trans (Writer.straight_travelTo _ _ none))
    h

end MillChain

end Straight

namespace Pass

variable {α : Type}

theorem shape_directed (pass : Pass α) (reversed : Bool) :
    (pass.directed reversed).shape = if reversed then pass.shape.reversed else pass.shape := by
  cases reversed with
  | false => rfl
  | true => rfl

theorem exists_arc_of_directed {pass : Pass α} {reversed : Bool} {a : Arc α}
    (h : (pass.directed reversed).shape = .arc a) :
    ∃ b, pass.shape = .arc b ∧ (a = b ∨ a = b.reversed) := by
  rw [shape_directed] at h
  cases reversed with
  | false => exact ⟨a, h, Or.inl rfl⟩
  | true =>
    cases hshape : pass.shape with
    | line l =>
      rw [hshape] at h
      cases h
    | arc b =>
      rw [hshape] at h
      exact ⟨b, rfl, Or.inr (Shape.arc.inj h).symm⟩

end Pass

namespace MillChain

/-- A line that cuts the arc of a pass: the circular move from next to the start of the arc, as it
is placed, to its end. -/
structure CutsArc (setup : Setup ℝ) (pass : Pass ℝ) (a : Arc ℝ) (line : Written ℝ) : Prop where
  shape : pass.shape = .arc a
  before : line.before.xy.distance (setup.apply a.start) ≤ positionTolerance
  command : line.record.IsCommand (if a.ccw then "G03" else "G02")
    [('X', Scalar.coordinate (setup.apply a.stop).x),
      ('Y', Scalar.coordinate (setup.apply a.stop).y),
      ('Z', setup.heightText (setup.apply a.stop) pass.zEnd),
      ('I', Scalar.coordinate ((setup.apply a.center).x - line.before.x)),
      ('J', Scalar.coordinate ((setup.apply a.center).y - line.before.y)),
      ('F', Writer.feedText pass.feeds.feed)]
  after : line.after = (setup.apply a.stop).atHeight pass.zEnd

/-- A line that cuts an arc of some passes in one of its directions. -/
def Cuts (setup : Setup ℝ) (passes : List (Pass ℝ)) (a : Arc ℝ) (line : Written ℝ) : Prop :=
  ∃ pass ∈ passes, ∃ reversed, CutsArc setup (pass.directed reversed) a line

variable {setup : Setup ℝ} {w w' : Writer ℝ}

private theorem CutsArc.circular {pass : Pass ℝ} {a : Arc ℝ} {line : Written ℝ}
    (h : CutsArc setup pass a line) : line.record.Circular := by
  rw [h.command.circular_iff]
  cases a.ccw with
  | false => exact Or.inl rfl
  | true => exact Or.inr rfl

section Step

private theorem xy_approach (w : Writer ℝ) (setup : Setup ℝ) (dest : Point ℝ) (pass : Pass ℝ) :
    (approach w setup dest pass).head.xy = w.head.xy.reached dest := by
  have hdown (w : Writer ℝ) :
      (if pass.top < w.head.z ∧ pass.deepest < pass.top then
        w.rapidToCorrected setup pass.top else w).head.xy = w.head.xy := by
    split
    · exact w.xy_rapidToCorrected setup pass.top
    · rfl
  exact (hdown _).trans (w.xy_reach pass.sweepHeight dest)

variable (rigid : setup.placement.Rigid) (w : Writer ℝ) {pass : Pass ℝ}

theorem straight_cut {l : Line ℝ} (shape : pass.shape = .line l) :
    Adds Straight w (cut pass w setup) := by
  rw [cut, shape]
  exact ((straight_approach pass w _).trans (Writer.straight_moveToHeight _ _ _)).trans
    (Writer.straight_millLine _ _ _ _)

include rigid

theorem xy_cut (pass : Pass ℝ) : (cut pass w setup).head.xy = setup.apply pass.shape.stop := by
  rw [cut]
  cases pass.shape with
  | line l => rfl
  | arc a => exact Arc.stop_place rigid a

theorem exists_line_cut {a : Arc ℝ} (shape : pass.shape = .arc a) :
    ∃ (v : Writer ℝ) (line : Written ℝ), Adds Straight w v ∧ line.before = v.head ∧
      cut pass w setup = v.push line.record line.after ∧ CutsArc setup pass a line ∧
      line.before.xy = w.head.xy.reached (setup.apply a.start) := by
  have hstraight : Adds Straight w (reach pass w setup) :=
    (straight_approach pass w _).trans (Writer.straight_moveToHeight _ _ _)
  have hbefore : (reach pass w setup).head.xy = w.head.xy.reached (setup.apply a.start) := by
    rw [reach, Writer.xy_moveToHeight, xy_approach, shape]
    rfl
  obtain ⟨record, head, hpush, hline⟩ := exists_cut_eq_push pass w setup
  have hstop : (a.place setup.placement).stop = setup.apply a.stop := Arc.stop_place rigid a
  have hcommand := hline.command
  have hafter := hline.after
  rw [shape] at hcommand hafter
  simp only [Shape.place, Shape.stop, hstop] at hcommand hafter
  refine ⟨_, ⟨record, _, head⟩, hstraight, rfl, hpush, ⟨shape, ?_, hcommand, hafter⟩, hbefore⟩
  show (reach pass w setup).head.xy.distance (setup.apply a.start) ≤ positionTolerance
  rw [hbefore]
  exact Point.distance_reached_le _ _

end Step

section Tour

private theorem grows_cutAll (choices : List (Choice ℝ)) (w : Writer ℝ) :
    Adds (fun _ => True) w (cutAll setup w choices) := by
  have hmoves (top safe : ℝ) : Writer.Moves (fun _ => True) setup top safe :=
    .of_still (fun _ _ => trivial) fun w dest =>
      ((w.straight_lifted safe).imp fun _ _ => trivial).trans
        (Writer.travelTo_adds dest none fun _ _ => trivial)
  induction choices generalizing w with
  | nil => exact .refl _ _
  | cons c choices ih => exact (adds_cutPass c (hmoves _ _) w).trans (ih _)

/-- Every arc among the passes of a chain is cut by a circular line, after some other passes. -/
theorem exists_line_of_mem {chain : MillChain ℝ} {piles : List (List (Pass ℝ))}
    (made : chain.piles = .ok piles) (rigid : setup.placement.Rigid)
    (mills : chain.mill w setup = .ok w') {pass : Pass ℝ} (mem : pass ∈ piles.flatten) {a : Arc ℝ}
    (shape : pass.shape = .arc a) :
    ∃ earlier : List (Choice ℝ), earlier.length < piles.flatten.length ∧
      ∃ line ∈ w.since w', line.record.Circular ∧ ∃ b, (b = a ∨ b = a.reversed) ∧
        Cuts setup piles.flatten b line ∧
        line.before.xy = (cutAll setup w earlier).head.xy.reached (setup.apply b.start) := by
  obtain ⟨piles', hpiles, hfinish⟩ := Model.bind_eq_ok.mp mills
  obtain rfl : piles = piles' := Except.ok.inj (made.symm.trans hpiles)
  obtain ⟨hwriter, hindices, hown⟩ := fullTour_spec setup piles w
  rw [hwriter] at hfinish
  obtain ⟨i, hi⟩ := List.getElem?_of_mem mem
  have hindex : i ∈ (fullTour setup piles w).1.map Choice.index := by
    rw [hindices.mem_iff, List.mem_range]
    exact (List.getElem?_eq_some_iff.mp hi).1
  obtain ⟨c, hc, rfl⟩ := List.mem_map.mp hindex
  obtain rfl : c.pass = pass := Option.some.inj ((hown c hc).symm.trans hi)
  obtain ⟨b, hshape, hb⟩ : ∃ b, (c.pass.directed c.reversed).shape = .arc b ∧
      (b = a ∨ b = a.reversed) := by
    cases c.reversed with
    | false => exact ⟨a, shape, Or.inl rfl⟩
    | true => exact ⟨a.reversed, congrArg Shape.reversed shape, Or.inr rfl⟩
  obtain ⟨earlier, later, hsplit⟩ := List.append_of_mem hc
  have hlength : earlier.length < piles.flatten.length := by
    have hall := hindices.length_eq
    rw [hsplit, List.length_map, List.length_append, List.length_cons, List.length_range] at hall
    omega
  obtain ⟨v, line, hstraight, hv, hpush, hcuts, hreached⟩ :=
    exists_line_cut rigid (cutAll setup w earlier) hshape
  have hmilled : cutAll setup w (fullTour setup piles w).1 =
      cutAll setup (v.push line.record line.after) later := by
    rw [hsplit, ← hpush, ← cutPass_eq, cutAll, List.foldl_append, List.foldl_cons]
    rfl
  rw [hmilled] at hfinish
  have hfirst := (grows_cutAll earlier w).trans (hstraight.imp fun _ _ => trivial)
  have hlast := (grows_cutAll later _).trans ((straight_finish hfinish).imp fun _ _ => trivial)
  have hsince : (⟨line.record, v.head, line.after⟩ : Written ℝ) ∈ w.since w' :=
    hfirst.mem_since hlast
  rw [← hv] at hsince
  exact ⟨earlier, hlength, line, hsince, hcuts.circular, b, hb, ⟨c.pass, mem, c.reversed, hcuts⟩,
    hreached⟩

end Tour

end MillChain

end Toolpath
