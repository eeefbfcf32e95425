import Toolpath.Proofs.Model.Tasks
import Toolpath.Proofs.Params.Ranges
import Toolpath.Proofs.Program.Words

/-!
What is written for a pass. The head goes over the start of the pass and to the height there, with
moves that cut nothing or straight down; then one line cuts along the shape to its other end and to
the height there. On the way to the end of a chain nothing is cut.
-/

set_option autoImplicit false

namespace Toolpath

variable {α : Type}

def Pass.directed (pass : Pass α) (reversed : Bool) : Pass α :=
  if reversed then pass.reversed else pass

namespace Shape

variable [Scalar α]

def code : Shape α → String
  | line _ => "G01"
  | arc a => if a.ccw then "G03" else "G02"

def centerWords (head : Head α) : Shape α → List (Char × String)
  | line _ => []
  | arc a =>
    [('I', Scalar.coordinate (a.center.x - head.x)), ('J', Scalar.coordinate (a.center.y - head.y))]

end Shape

open Writer (Adds moveTolerance)

namespace MillChain

variable [Scalar α] {setup : Setup α} {pass : Pass α} {w w' : Writer α}

/-- A line that cuts only up or down, if at all. -/
def Upright (line : Written α) : Prop :=
  line.record.kind.isCutting = true → line.after.xy = line.before.xy

def Idle (line : Written α) : Prop := line.record.kind.isCutting = false

/-- From `p` there is no way to go to `dest`. -/
def Arrived (p dest : Point α) : Prop :=
  p = dest ∨ p.coincides dest = true ∨ p.distance dest ≤ moveTolerance

/-- From the height `z` there is no way to go to `goal`. -/
def Level (z goal : α) : Prop :=
  z = goal ∨ Scalar.abs (z - goal) ≤ moveTolerance ∨
    ¬ goal + moveTolerance < z ∧ ¬ z < goal - moveTolerance

structure AtStart (setup : Setup α) (pass : Pass α) (head : Head α) : Prop where
  place : Arrived head.xy (setup.apply pass.shape.start)
  height : Level head.z pass.zStart

/-- The line that cuts a pass along its shape, as it is placed. -/
structure CutsAlong (setup : Setup α) (pass : Pass α) (line : Written α) : Prop where
  kind : line.record.kind = .mill
  feed : line.record.feed = some pass.feeds.feed
  command : line.record.IsCommand (pass.shape.place setup.placement).code
    ([('X', Scalar.coordinate (pass.shape.place setup.placement).stop.x),
      ('Y', Scalar.coordinate (pass.shape.place setup.placement).stop.y),
      ('Z', setup.heightText (pass.shape.place setup.placement).stop pass.zEnd)] ++
      (pass.shape.place setup.placement).centerWords line.before ++
      [('F', Writer.feedText pass.feeds.feed)])
  after : line.after = (pass.shape.place setup.placement).stop.atHeight pass.zEnd

/-- Between two writers a pass is cut, and nothing else. -/
inductive Mills (setup : Setup α) (pass : Pass α) (w : Writer α) : Writer α → Prop
  | cut {v : Writer α} {record : Record α} {head : Head α} : Adds Upright w v →
      AtStart setup pass v.head → CutsAlong setup pass ⟨record, v.head, head⟩ →
      Mills setup pass w (v.push record head)

section Way

private theorem idle_lifted_travelTo (w : Writer α) (sweep : α) (dest : Point α) :
    Adds Idle w ((w.lifted sweep).travelTo dest none) := by
  have hlift : Adds Idle w (w.lifted sweep) := by
    unfold Writer.lifted
    split
    · refine (Writer.commands_lift sweep (blank_notMem_coordinate sweep)).imp ?_
      intro line ⟨hkind, _⟩
      rw [Idle, hkind]
      rfl
    · exact .refl _ _
  refine hlift.trans ((Writer.commands_travelTo dest none).imp ?_)
  intro line ⟨hkind, _⟩
  rw [Idle, hkind]
  rfl

private theorem idle_rapidToCorrected (w : Writer α) (z : α) :
    Adds Idle w (w.rapidToCorrected setup z) := by
  refine (Writer.commands_lift z (blank_notMem_height setup _ z)).imp ?_
  intro line ⟨hkind, _⟩
  rw [Idle, hkind]
  rfl

omit [Scalar α] in
private theorem upright_of_idle {line : Written α} (h : Idle line) : Upright line := by
  intro hcuts
  rw [h] at hcuts
  cases hcuts

private theorem upright_approach (pass : Pass α) (w : Writer α) (dest : Point α) :
    Adds Upright w (approach w setup dest pass) := by
  refine (adds_approach_of pass ?_ ?_ w dest).imp fun _ => upright_of_idle
  · exact fun w dest => idle_lifted_travelTo w pass.sweepHeight dest
  · exact fun w => idle_rapidToCorrected w pass.top

private theorem upright_moveToHeight (w : Writer α) (z feed : α) :
    Adds Upright w (w.moveToHeight setup z feed) := by
  unfold Writer.moveToHeight
  split
  · exact .push _ _ _ fun _ => rfl
  · split
    · exact (idle_rapidToCorrected w z).imp fun _ => upright_of_idle
    · exact .refl _ _

private theorem arrived_approach (w : Writer α) (dest : Point α) :
    Arrived (approach w setup dest pass).head.xy dest := by
  have hover : Arrived (if w.head.xy.coincides dest then w
      else (w.lifted pass.sweepHeight).travelTo dest none).head.xy dest := by
    split
    · next hnear => exact Or.inr (Or.inl hnear)
    · rw [Writer.xy_travelTo]
      split
      · next hnear => exact Or.inr (Or.inr hnear)
      · exact Or.inl rfl
  have hdown (w : Writer α) :
      (if pass.top < w.head.z ∧ pass.deepest < pass.top then
        w.rapidToCorrected setup pass.top else w).head.xy = w.head.xy := by
    split
    · exact w.xy_rapidToCorrected setup pass.top
    · rfl
  exact (hdown _).symm ▸ hover

private theorem level_moveToHeight (w : Writer α) (z feed : α) :
    Level (w.moveToHeight setup z feed).head.z z := by
  unfold Writer.moveToHeight
  split
  · exact Or.inl rfl
  · next hdown =>
    split
    · unfold Writer.rapidToCorrected Writer.lift
      dsimp only
      split
      · next hnear => exact Or.inr (Or.inl hnear)
      · exact Or.inl rfl
    · next hup => exact Or.inr (Or.inr ⟨hdown, hup⟩)

end Way

def reach (pass : Pass α) (w : Writer α) (setup : Setup α) : Writer α :=
  (approach w setup (setup.apply pass.shape.start) pass).moveToHeight setup pass.zStart
    pass.feeds.plunge

def cut (pass : Pass α) (w : Writer α) (setup : Setup α) : Writer α :=
  pass.shape.mill (approach w setup (setup.apply pass.shape.start) pass) setup pass.zStart
    pass.zEnd pass.feeds

theorem cutPass_eq (w : Writer α) (setup : Setup α) (c : Choice α) :
    cutPass w setup c = cut (c.pass.directed c.reversed) w setup := rfl

theorem exists_cut_eq_push (pass : Pass α) (w : Writer α) (setup : Setup α) :
    ∃ record head, cut pass w setup = (reach pass w setup).push record head ∧
      CutsAlong setup pass ⟨record, (reach pass w setup).head, head⟩ := by
  obtain ⟨shape, zStart, zEnd, feeds, sweepHeight, top⟩ := pass
  cases shape with
  | line l =>
    refine ⟨_, _, rfl, rfl, rfl, ?_, rfl⟩
    exact (Writer.commands_millLine setup (setup.apply l.stop) zEnd feeds.feed).of_push.2
  | arc a =>
    let placed := a.place setup.placement
    refine ⟨_, _, rfl, rfl, rfl, ?_, rfl⟩
    exact (Writer.commands_millArc setup placed.stop placed.center placed.ccw zEnd a.length
      feeds.feed).of_push.2

private theorem mills_cut (pass : Pass α) (w : Writer α) (setup : Setup α) :
    Mills setup pass w (cut pass w setup) := by
  have hupright : Adds Upright w (reach pass w setup) :=
    (upright_approach pass w _).trans (upright_moveToHeight _ _ _)
  have hstart : AtStart setup pass (reach pass w setup).head := by
    refine ⟨?_, level_moveToHeight _ pass.zStart pass.feeds.plunge⟩
    rw [reach, Writer.xy_moveToHeight]
    exact arrived_approach w _
  obtain ⟨record, head, hpush, hline⟩ := exists_cut_eq_push pass w setup
  rw [hpush]
  exact .cut hupright hstart hline

theorem mills_cutPass (w : Writer α) (setup : Setup α) (c : Choice α) :
    Mills setup (c.pass.directed c.reversed) w (cutPass w setup c) :=
  mills_cut _ w setup

/-- What the way to the end of a chain is: none, or a travel from a clear height. -/
theorem finish_cases {chain : MillChain α} {last : Cut α} (ends : chain.getLast? = some last)
    (h : chain.finish w setup = .ok w') :
    w' = w ∨ ∃ sweep dest, last.settings.get? .sweepHeight = some sweep ∧
      w' = (w.lifted sweep).travelTo dest none := by
  unfold finish at h
  rw [ends] at h
  dsimp only at h
  split at h
  · exact Or.inl (Except.ok.inj h).symm
  · obtain ⟨sweep, hsweep, h⟩ := Model.bind_eq_ok.mp h
    exact Or.inr ⟨sweep, _, Settings.get?_of_require hsweep, (Except.ok.inj h).symm⟩

theorem adds_finish {P : Written α → Prop} {chain : MillChain α}
    (travel : ∀ (w : Writer α) (sweep : α) (dest : Point α),
      Adds P w ((w.lifted sweep).travelTo dest none))
    (h : chain.finish w setup = .ok w') : Adds P w w' := by
  cases hlast : chain.getLast? with
  | none =>
    unfold finish at h
    rw [hlast] at h
    obtain rfl := Except.ok.inj h
    exact .refl _ _
  | some last =>
    rcases finish_cases hlast h with rfl | ⟨sweep, dest, -, rfl⟩
    · exact .refl _ _
    · exact travel w sweep dest

theorem idle_finish {chain : MillChain α} (h : chain.finish w setup = .ok w') : Adds Idle w w' :=
  adds_finish idle_lifted_travelTo h

end MillChain

end Toolpath
