import Toolpath.Proofs.Program.Moves

/-!
The heights at which heads travel. Holes, chains and travels bring the head to a sweep height before
they move it over the bed, unless it is there: exactly, by next to nothing, or above. Each of these
moves adds only lines that are no travels or travels from such heights.
-/

set_option autoImplicit false

namespace Toolpath

variable {α : Type} [Scalar α]

/-- A height from which the head may travel: the sweep height, one that differs from it by next to
nothing, or one that is not below it. -/
def Clear (sweep z : α) : Prop :=
  z = sweep ∨ Scalar.abs (z - sweep) ≤ Writer.moveTolerance ∨ ¬ z < sweep

/-- A line that is no travel, or one from a clear height. -/
def High (sweep : α) (line : Written α) : Prop :=
  line.record.kind = .travel → Clear sweep line.before.z

private theorem Writer.Still.high {line : Written α} (h : Writer.Still line) (sweep : α) :
    High sweep line :=
  fun htravel => absurd htravel h

namespace Writer

variable {w w' : Writer α}

theorem Adds.high (h : Adds Still w w') (sweep : α) : Adds (High sweep) w w' :=
  h.imp fun _ hline => Still.high hline sweep

theorem clear_rapidTo (w : Writer α) (sweep : α) : Clear sweep (w.rapidTo sweep).head.z := by
  unfold rapidTo lift
  dsimp only
  split
  · next hnear => exact Or.inr (Or.inl hnear)
  · exact Or.inl rfl

private theorem clear_lifted (w : Writer α) (sweep : α) : Clear sweep (w.lifted sweep).head.z := by
  unfold lifted
  split
  · exact clear_rapidTo w sweep
  · next hnot => exact Or.inr (Or.inr hnot)

theorem still_lifted (sweep : α) : Adds Still w (w.lifted sweep) := by
  unfold lifted
  split
  · exact still_rapidTo sweep
  · exact .refl _ _

theorem high_travelTo {sweep : α} (h : Clear sweep w.head.z) (dest : Point α) (rate : Option α) :
    Adds (High sweep) w (w.travelTo dest rate) := by
  refine travelTo_adds dest rate fun line hline _ => ?_
  rw [hline]
  exact h

theorem high_lifted_travelTo (sweep : α) (dest : Point α) (rate : Option α) :
    Adds (High sweep) w ((w.lifted sweep).travelTo dest rate) :=
  ((still_lifted sweep).high sweep).trans (high_travelTo (clear_lifted w sweep) dest rate)

theorem high_moves (setup : Setup α) (top sweep : α) : Moves (High sweep) setup top sweep :=
  .of_still (fun _ hline => hline.high sweep) fun _ dest => high_lifted_travelTo sweep dest none

end Writer

open Writer (Adds)

namespace HoleParams

variable {w : Writer α} {setup : Setup α}

private theorem still_peckTo (p : HoleParams α) (w : Writer α) (z : α) :
    Adds Writer.Still w (p.peckTo setup w z) := by
  unfold peckTo
  dsimp only
  have hout : Adds Writer.Still w ((w.drillTo setup z p.plungeRate).rapidToCorrected setup p.top) :=
    (Writer.still_drillTo setup z p.plungeRate).trans (Writer.still_rapidToCorrected setup p.top)
  split
  · exact hout.trans (Writer.still_rapidToCorrected setup _)
  · exact hout

theorem still_cycle (p : HoleParams α) (w : Writer α) (setup : Setup α) (center : Point α) :
    Adds Writer.Still (p.approach w setup center) (p.drill w setup center) := by
  have hcycle (w : Writer α) : Adds Writer.Still w
      (if p.peck ≤ 0.0 then
          (w.comment "Simple drilling cycle").drillTo setup p.bottom p.plungeRate
        else
          (Layers.descent p.top p.peck p.bottom).foldl (p.peckTo setup)
            (w.comment "Peck drilling cycle")) := by
    split
    · exact (Writer.still_comment _).trans (Writer.still_drillTo setup p.bottom p.plungeRate)
    · exact (Writer.still_comment _).trans (.foldl p.still_peckTo _ _)
  exact (hcycle _).trans (Writer.still_rapidTo p.safe)

theorem high_drill (p : HoleParams α) (center : Point α) :
    Adds (High p.safe) w (p.drill w setup center) := by
  have happroach := p.adds_approach (Writer.high_moves setup p.top p.safe) w center
  exact happroach.trans ((p.still_cycle w setup center).high p.safe)

theorem high_bore (p : HoleParams α) (center : Point α) (holeRadius bitDiameter : α) :
    Adds (High p.safe) w (p.bore w setup center holeRadius bitDiameter) := by
  have hmoves := Writer.high_moves setup p.top p.safe
  have haway (w : Writer α) : Adds (High p.safe) w (w.rapidTo p.safe) :=
    (Writer.still_rapidTo p.safe).high p.safe
  rcases p.bore_cases hmoves haway w center holeRadius bitDiameter with ⟨text, -, hdrill⟩ | hspiral
  · rw [hdrill]
    exact ((Writer.still_comment text).high p.safe).trans (p.high_drill center)
  · exact hspiral

end HoleParams

end Toolpath
