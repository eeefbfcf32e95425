import Toolpath.Hole
import Toolpath.MillChain
import Toolpath.Proofs.Program.Lines
import Toolpath.Proofs.Program.Texts

/-!
What the moves of holes and passes are made of. The head goes up and over a place, down to the
surface, and along cuts; there are comments in between. If each of these moves adds lines of one
kind only, so do the ways to holes and passes, the passes themselves and the spirals of wide holes.
Moves up and down keep the place of the head over the bed.
-/

set_option autoImplicit false

namespace Toolpath

variable {α : Type} [Scalar α]

namespace Writer

def lifted (w : Writer α) (sweep : α) : Writer α :=
  if w.head.z < sweep then w.rapidTo sweep else w

section Heads

variable (w : Writer α) (setup : Setup α)

@[simp] theorem xy_comment (text : String) : (w.comment text).head.xy = w.head.xy := rfl

@[simp] theorem xy_lift (z : α) (text : String) : (w.lift z text).head.xy = w.head.xy := by
  unfold lift
  dsimp only
  split
  · rfl
  · rfl

@[simp] theorem xy_rapidTo (z : α) : (w.rapidTo z).head.xy = w.head.xy := w.xy_lift z _

@[simp] theorem xy_rapidToCorrected (z : α) :
    (w.rapidToCorrected setup z).head.xy = w.head.xy :=
  w.xy_lift z _

@[simp] theorem xy_lifted (sweep : α) : (w.lifted sweep).head.xy = w.head.xy := by
  unfold lifted
  split
  · exact w.xy_rapidTo sweep
  · rfl

@[simp] theorem xy_cutTo (kind : RecordKind) (z feed : α) :
    (w.cutTo kind setup z feed).head.xy = w.head.xy := rfl

@[simp] theorem xy_moveToHeight (z feed : α) :
    (w.moveToHeight setup z feed).head.xy = w.head.xy := by
  unfold moveToHeight
  split
  · rfl
  · split
    · exact w.xy_rapidToCorrected setup z
    · rfl

@[simp] theorem z_travelTo (dest : Point α) (rate : Option α) :
    (w.travelTo dest rate).head.z = w.head.z := by
  unfold travelTo
  dsimp only
  split
  · rfl
  · rfl

theorem xy_travelTo (dest : Point α) (rate : Option α) : (w.travelTo dest rate).head.xy =
    if w.head.xy.distance dest ≤ moveTolerance then w.head.xy else dest := by
  unfold travelTo
  dsimp only
  split
  · rfl
  · rfl

end Heads

/-- The moves for an element with its surface at `top`, to which the head travels at `safe`, add
lines of one kind only. -/
structure Moves (P : Written α → Prop) (setup : Setup α) (top safe : α) : Prop where
  comment (w : Writer α) {text : String} (line : OneLine text) : Adds P w (w.comment text)
  travel (w : Writer α) (dest : Point α) : Adds P w ((w.lifted safe).travelTo dest none)
  surface (w : Writer α) : Adds P w (w.rapidToCorrected setup top)
  height (w : Writer α) (z feed : α) : Adds P w (w.moveToHeight setup z feed)
  line (w : Writer α) (dest : Point α) (z feed : α) : Adds P w (w.millLine setup dest z feed)
  arc (w : Writer α) (dest center : Point α) (ccw : Bool) (z length feed : α) :
    Adds P w (w.millArc setup dest center ccw z length feed)

namespace Moves

variable {P : Written α → Prop} {setup : Setup α} {top safe : α}

theorem of_still (still : ∀ line, Still line → P line)
    (travel : ∀ (w : Writer α) (dest : Point α), Adds P w ((w.lifted safe).travelTo dest none)) :
    Moves P setup top safe where
  comment _ _ _ := (still_comment _).imp still
  travel := travel
  surface _ := (still_rapidToCorrected setup top).imp still
  height _ z feed := (still_moveToHeight setup z feed).imp still
  line _ dest z feed := (still_millLine setup dest z feed).imp still
  arc _ dest center ccw z length feed :=
    (still_millArc setup dest center ccw z length feed).imp still

private theorem shape (h : Moves P setup top safe) (shape : Shape α) (w : Writer α)
    (zStart zEnd : α) (feeds : CutFeeds α) : Adds P w (shape.mill w setup zStart zEnd feeds) := by
  unfold Shape.mill
  refine (h.height w zStart feeds.plunge).trans ?_
  cases shape with
  | line l => exact h.line _ _ _ _
  | arc a => exact h.arc _ _ _ _ _ _ _

end Moves

/-- All moves of programs add lines of one kind only, wherever they go. -/
structure Primitives (P : Written α → Prop) : Prop where
  comment (w : Writer α) {text : String} (line : OneLine text) : Adds P w (w.comment text)
  rapid (w : Writer α) (z : α) : Adds P w (w.rapidTo z)
  corrected (w : Writer α) (setup : Setup α) (z : α) : Adds P w (w.rapidToCorrected setup z)
  travel (w : Writer α) (dest : Point α) (rate : Option α) : Adds P w (w.travelTo dest rate)
  cut (w : Writer α) {kind : RecordKind} (cuts : kind.isCutting = true) (setup : Setup α)
    (z feed : α) : Adds P w (w.cutTo kind setup z feed)
  line (w : Writer α) (setup : Setup α) (dest : Point α) (z feed : α) :
    Adds P w (w.millLine setup dest z feed)
  arc (w : Writer α) (setup : Setup α) (dest center : Point α) (ccw : Bool) (z length feed : α) :
    Adds P w (w.millArc setup dest center ccw z length feed)

namespace Primitives

variable {P : Written α → Prop} (h : Primitives P) (w : Writer α)

include h

theorem lifted (sweep : α) : Adds P w (w.lifted sweep) := by
  unfold Writer.lifted
  split
  · exact h.rapid w sweep
  · exact .refl _ _

private theorem height (setup : Setup α) (z feed : α) : Adds P w (w.moveToHeight setup z feed) := by
  unfold moveToHeight
  split
  · exact h.cut w rfl setup z feed
  · split
    · exact h.corrected w setup z
    · exact .refl _ _

omit w in
theorem moves (setup : Setup α) (top safe : α) : Moves P setup top safe where
  comment w _ line := h.comment w line
  travel w dest := (h.lifted w safe).trans (h.travel _ dest none)
  surface w := h.corrected w setup top
  height w := h.height w setup
  line w := h.line w setup
  arc w := h.arc w setup

end Primitives

end Writer

open Writer (Adds Moves)

variable {P : Written α → Prop} {setup : Setup α}

namespace HoleParams

theorem adds_approach_of (p : HoleParams α)
    (travel : ∀ (w : Writer α) (dest : Point α), Adds P w ((w.lifted p.safe).travelTo dest none))
    (surface : ∀ w : Writer α, Adds P w (w.rapidToCorrected setup p.top))
    (height : ∀ w : Writer α, Adds P w (w.moveToHeight setup p.top p.plungeRate)) (w : Writer α)
    (center : Point α) : Adds P w (p.approach w setup center) := by
  have hover : Adds P w
      (if w.head.xy.coincides center then w else (p.liftToSafe w).travelTo center none) := by
    split
    · exact .refl _ _
    · exact travel w center
  have hdown (w : Writer α) : Adds P w
      (if p.top < w.head.z then w.rapidToCorrected setup p.top
        else w.moveToHeight setup p.top p.plungeRate) := by
    split
    · exact surface w
    · exact height w
  exact hover.trans (hdown _)

theorem adds_approach (p : HoleParams α) (h : Moves P setup p.top p.safe) (w : Writer α)
    (center : Point α) : Adds P w (p.approach w setup center) :=
  p.adds_approach_of h.travel h.surface (fun w => h.height w p.top p.plungeRate) w center

/-- A hole that is not wider than the bit is drilled behind a comment; all others are a spiral. -/
theorem bore_cases (p : HoleParams α) (h : Moves P setup p.top p.safe)
    (away : ∀ w : Writer α, Adds P w (w.rapidTo p.safe)) (w : Writer α) (center : Point α)
    (holeRadius bitDiameter : α) :
    (∃ text, OneLine text ∧
      p.bore w setup center holeRadius bitDiameter = p.drill (w.comment text) setup center) ∨
    Adds P w (p.bore w setup center holeRadius bitDiameter) := by
  have hdown (w : Writer α) : Adds P w
      (if p.top < w.head.z then w.rapidToCorrected setup p.top else w) := by
    split
    · exact h.surface w
    · exact .refl _ _
  have hspiral (start : Point α) (turn : α) (w : Writer α) : Adds P w
      ((Layers.descent p.top p.pitch p.bottom).foldl
        (fun w z => w.millArc setup start center false z turn p.feedRate) w) :=
    .foldl (fun w z => h.arc w start center false z turn p.feedRate) _ w
  have hfloor (start : Point α) (turn : α) (w : Writer α) : Adds P w
      (((w.millArc setup start center false p.bottom turn p.feedRate).millLine setup center
        p.bottom p.feedRate).rapidTo p.safe) :=
    ((h.arc w start center false p.bottom turn p.feedRate).trans
      (h.line _ center p.bottom p.feedRate)).trans (away _)
  unfold bore
  dsimp only
  split
  · exact Or.inl ⟨_, by simp +decide, rfl⟩
  · have hover (start : Point α) : Adds P w
        (((w.comment "Helical interpolation cycle").lifted p.safe).travelTo start none) :=
      (h.comment w (by decide)).trans (h.travel _ start)
    exact Or.inr ((((hover _).trans (hdown _)).trans (hspiral _ _ _)).trans (hfloor _ _ _))

variable (h : Writer.Primitives P)

include h

private theorem adds_peckTo (p : HoleParams α) (w : Writer α) (z : α) :
    Adds P w (p.peckTo setup w z) := by
  unfold peckTo
  dsimp only
  have hout : Adds P w ((w.drillTo setup z p.plungeRate).rapidToCorrected setup p.top) :=
    (h.cut w rfl setup z p.plungeRate).trans (h.corrected _ setup p.top)
  split
  · exact hout.trans (h.corrected _ setup _)
  · exact hout

theorem adds_drill (p : HoleParams α) (w : Writer α) (center : Point α) :
    Adds P w (p.drill w setup center) := by
  have happroach := p.adds_approach (h.moves setup p.top p.safe) w center
  have hcycle (w : Writer α) : Adds P w
      (if p.peck ≤ 0.0 then
          (w.comment "Simple drilling cycle").drillTo setup p.bottom p.plungeRate
        else
          (Layers.descent p.top p.peck p.bottom).foldl (p.peckTo setup)
            (w.comment "Peck drilling cycle")) := by
    split
    · exact (h.comment w (by decide)).trans (h.cut _ rfl setup p.bottom p.plungeRate)
    · exact (h.comment w (by decide)).trans (.foldl (adds_peckTo h p) _ _)
  exact (happroach.trans (hcycle _)).trans (h.rapid _ p.safe)

theorem adds_bore (p : HoleParams α) (w : Writer α) (center : Point α)
    (holeRadius bitDiameter : α) : Adds P w (p.bore w setup center holeRadius bitDiameter) := by
  rcases p.bore_cases (h.moves setup p.top p.safe) (fun w => h.rapid w p.safe) w center holeRadius
    bitDiameter with ⟨text, htext, hdrill⟩ | hspiral
  · rw [hdrill]
    exact (h.comment w htext).trans (adds_drill h p _ center)
  · exact hspiral

end HoleParams

namespace MillChain

theorem adds_approach_of (pass : Pass α)
    (travel : ∀ (w : Writer α) (dest : Point α),
      Adds P w ((w.lifted pass.sweepHeight).travelTo dest none))
    (surface : ∀ w : Writer α, Adds P w (w.rapidToCorrected setup pass.top)) (w : Writer α)
    (dest : Point α) : Adds P w (approach w setup dest pass) := by
  have hover : Adds P w
      (if w.head.xy.coincides dest then w
        else (w.lifted pass.sweepHeight).travelTo dest none) := by
    split
    · exact .refl _ _
    · exact travel w dest
  have hdown (w : Writer α) : Adds P w
      (if pass.top < w.head.z ∧ pass.deepest < pass.top then
        w.rapidToCorrected setup pass.top else w) := by
    split
    · exact surface w
    · exact .refl _ _
  exact hover.trans (hdown _)

private theorem adds_approach (pass : Pass α) (h : Moves P setup pass.top pass.sweepHeight)
    (w : Writer α) (dest : Point α) : Adds P w (approach w setup dest pass) :=
  adds_approach_of pass h.travel h.surface w dest

theorem adds_cutPass (c : Choice α) (h : Moves P setup c.pass.top c.pass.sweepHeight)
    (w : Writer α) : Adds P w (cutPass w setup c) := by
  have hpass (pass : Pass α) (h : Moves P setup pass.top pass.sweepHeight) : Adds P w
      (pass.shape.mill (approach w setup (setup.apply pass.shape.start) pass) setup pass.zStart
        pass.zEnd pass.feeds) :=
    (adds_approach pass h w _).trans (h.shape pass.shape _ _ _ _)
  unfold cutPass
  cases c.reversed with
  | false => exact hpass c.pass h
  | true => exact hpass c.pass.reversed h

theorem adds_tour (h : ∀ top safe, Moves P setup top safe) (steps : Nat)
    (piles : List (List (Nat × Pass α))) (w : Writer α) :
    Adds P w (tour setup steps piles w).2 := by
  induction steps generalizing piles w with
  | zero => exact .refl _ _
  | succ steps ih =>
    rw [tour]
    split
    · exact .refl _ _
    · next c _ => exact (adds_cutPass c (h _ _) w).trans (ih _ _)

end MillChain

end Toolpath
