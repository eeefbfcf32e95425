import Toolpath.Proofs.MillChain.ArcLines

/-!
Holes that are drilled instead of milled. A hole is milled along circles if more than the tolerance
of positions is left around the bit; else the lines for it are a drilling cycle, and none of them is
circular.
-/

set_option autoImplicit false

namespace Toolpath

variable {α : Type} [Scalar α]

open Writer (Adds)
open Written (Straight)

def Written.StartsCycle (line : Written α) : Prop :=
  line.record = .comment "Simple drilling cycle" ∨ line.record = .comment "Peck drilling cycle"

/-- Lines with a drilling cycle and without arcs. -/
structure DrillingCycle (lines : List (Written α)) : Prop where
  cycle : ∃ line ∈ lines, line.StartsCycle
  straight : ∀ line ∈ lines, line.Straight

private theorem Writer.straight_comment (w : Writer α) (text : String) :
    Adds Straight w (w.comment text) := by
  refine .push _ _ _ ?_
  have hwords := Record.words_of_comment (r := (.comment text : Record α)) rfl
  simp [Straight, Record.Circular, hwords]

namespace HoleParams

variable (p : HoleParams α) (setup : Setup α) (center : Point α)

private theorem straight_approach (w : Writer α) : Adds Straight w (p.approach w setup center) :=
  p.adds_approach_of
    (fun w dest => (w.straight_lifted p.safe).trans (Writer.straight_travelTo _ dest none))
    (fun w => w.straight_rapidToCorrected p.top)
    (fun w => w.straight_moveToHeight p.top p.plungeRate) w center

private theorem straight_peckTo (w : Writer α) (z : α) : Adds Straight w (p.peckTo setup w z) := by
  have hcut : Adds Straight w (w.drillTo setup z p.plungeRate) :=
    w.straight_cutTo rfl z p.plungeRate
  have hout : Adds Straight w ((w.drillTo setup z p.plungeRate).rapidToCorrected setup p.top) :=
    hcut.trans (Writer.straight_rapidToCorrected _ p.top)
  unfold peckTo
  dsimp only
  split
  · exact hout.trans (Writer.straight_rapidToCorrected _ _)
  · exact hout

private theorem drillingCycle_drill {w v : Writer α} (first : Adds Straight w v) :
    DrillingCycle (w.since (p.drill v setup center)) := by
  have hway := first.trans (p.straight_approach setup center v)
  have hsafe (w : Writer α) : Adds Straight w (w.rapidTo p.safe) :=
    w.straight_lift p.safe (blank_notMem_coordinate p.safe)
  unfold drill
  dsimp only
  split
  · have hdrill (w : Writer α) : Adds Straight w (w.drillTo setup p.bottom p.plungeRate) :=
      w.straight_cutTo rfl p.bottom p.plungeRate
    have hcut (w : Writer α) := (hdrill w).trans (hsafe _)
    refine ⟨⟨_, hway.mem_since (hcut (Writer.comment _ "Simple drilling cycle")), Or.inl rfl⟩, ?_⟩
    exact fun line => ((hway.trans (Writer.straight_comment _ _)).trans (hcut _)).of_mem_since
  · have hpecks (w : Writer α) : Adds Straight w
        (((Layers.descent p.top p.peck p.bottom).foldl (p.peckTo setup) w).rapidTo p.safe) :=
      (Adds.foldl (p.straight_peckTo setup) _ w).trans (hsafe _)
    refine ⟨⟨_, hway.mem_since (hpecks (Writer.comment _ "Peck drilling cycle")), Or.inr rfl⟩, ?_⟩
    exact fun line => ((hway.trans (Writer.straight_comment _ _)).trans (hpecks _)).of_mem_since

private theorem exists_circular_bore (w : Writer α) {holeRadius bitDiameter : α}
    (wide : ¬ holeRadius - bitDiameter / 2.0 ≤ positionTolerance) :
    ∃ line ∈ w.since (p.bore w setup center holeRadius bitDiameter), line.record.Circular := by
  have hover (start : Point α) : Adds Straight w
      (((w.comment "Helical interpolation cycle").lifted p.safe).travelTo start none) :=
    ((w.straight_comment _).trans (Writer.straight_lifted _ p.safe)).trans
      (Writer.straight_travelTo _ start none)
  have hdown (w : Writer α) : Adds Straight w
      (if p.top < w.head.z then w.rapidToCorrected setup p.top else w) := by
    split
    · exact w.straight_rapidToCorrected p.top
    · exact .refl _ _
  have hspiral (start : Point α) (turn : α) (w : Writer α) : Adds (fun _ => True) w
      ((Layers.descent p.top p.pitch p.bottom).foldl
        (fun w z => w.millArc setup start center false z turn p.feedRate) w) :=
    .foldl (fun _ _ => .push _ _ _ trivial) _ w
  have hend (w : Writer α) : Adds Straight w
      ((w.millLine setup center p.bottom p.feedRate).rapidTo p.safe) :=
    (w.straight_millLine center p.bottom p.feedRate).trans
      (Writer.straight_lift _ p.safe (blank_notMem_coordinate p.safe))
  have hway (start : Point α) := ((hover start).trans (hdown _)).imp fun _ _ => trivial
  unfold bore
  dsimp only
  rw [if_neg wide]
  refine ⟨_, ((hway _).trans (hspiral _ _ _)).mem_since (hend (Writer.millArc _ _ _ _ _ _ _ _)), ?_⟩
  refine (Writer.commands_millArc setup _ center false p.bottom _
    p.feedRate).of_push.2.circular_iff.mpr (Or.inl rfl)

theorem drillingCycle_bore_iff (w : Writer α) (holeRadius bitDiameter : α) :
    DrillingCycle (w.since (p.bore w setup center holeRadius bitDiameter)) ↔
      holeRadius - bitDiameter / 2.0 ≤ positionTolerance := by
  constructor
  · intro h
    by_contra hwide
    obtain ⟨line, hline, hcircular⟩ := p.exists_circular_bore setup center w hwide
    exact h.straight line hline hcircular
  · intro hnarrow
    unfold bore
    dsimp only
    rw [if_pos hnarrow]
    exact p.drillingCycle_drill setup center (w.straight_comment _)

end HoleParams

end Toolpath
