import Toolpath.Proofs.Layers.Descent
import Toolpath.Proofs.Program.Places
import Toolpath.Proofs.Program.Rapids
import Toolpath.Proofs.Program.Words

/-!
Holes drilled in pecks, in exact arithmetic. Before each cut but the first the drill is brought out
to the surface and then back to a clearance over the depth of the last one, so no cut goes further
than a peck below what is drilled already. For small pecks the way back goes up, and either way is
left out where the head is near its end.
-/

set_option autoImplicit false

namespace Toolpath

open Writer (Adds Writes)

/-- Lines that bring the head straight up or down to a height: a rapid, or none if it is near. -/
inductive Brings (setup : Setup ℝ) (z : ℝ) (head : Head ℝ) : List (Written ℝ) → Head ℝ → Prop
  | near (h : |head.z - z| ≤ Writer.moveTolerance) : Brings setup z head [] head
  | rapid {r : Record ℝ} (kind : r.kind = .lift)
      (command : r.IsCommand "G00" [('Z', setup.heightText head.xy z)]) :
      Brings setup z head [⟨r, head, { head with z := z }⟩] { head with z := z }

private theorem Brings.lift {setup : Setup ℝ} {z : ℝ} {head head' : Head ℝ}
    {lines : List (Written ℝ)}
    (h : Brings setup z head lines head') : ∀ line ∈ lines, line.record.kind = .lift := by
  cases h with
  | near => simp
  | rapid kind => simpa using kind

private theorem Writer.exists_brings (w : Writer ℝ) (setup : Setup ℝ) (z : ℝ) :
    ∃ lines, Writes w lines (w.rapidToCorrected setup z) ∧
      Brings setup z w.head lines (w.rapidToCorrected setup z).head := by
  have hcommand := commands_lift (w := w) z (blank_notMem_height setup w.head.xy z)
  unfold rapidToCorrected
  unfold lift at hcommand ⊢
  dsimp only at hcommand ⊢
  split
  · next hnear =>
    rw [RealScalar.abs_eq] at hnear
    exact ⟨[], .refl w, .near hnear⟩
  · next hfar =>
    rw [if_neg hfar] at hcommand
    obtain ⟨hkind, hline⟩ := hcommand.of_push
    exact ⟨_, .push w _ _, .rapid hkind hline⟩

def drills (lines : List (Written ℝ)) : List (Written ℝ) :=
  lines.filter fun line => line.record.kind = .drill

private theorem drills_append (lines later : List (Written ℝ)) :
    drills (lines ++ later) = drills lines ++ drills later :=
  List.filter_append ..

/-- A line that does not drill. -/
def Undrilled (line : Written ℝ) : Prop := line.record.kind ≠ .drill

private theorem drills_eq_nil {lines : List (Written ℝ)} (h : ∀ line ∈ lines, Undrilled line) :
    drills lines = [] := by
  simpa [drills, Undrilled] using h

private theorem Justified.of_undrilled {P : List (Written ℝ) → Written ℝ → Prop}
    {lines : List (Written ℝ)} (h : ∀ line ∈ lines, Undrilled line) :
    Justified (fun front line => line.record.kind = .drill → P front line) lines := by
  rintro front line back rfl hdrill
  exact absurd hdrill (h line (by simp))

namespace Writer

private theorem undrilled_lift {w : Writer ℝ} (z : ℝ) (text : String) :
    Adds Undrilled w (w.lift z text) := by
  unfold lift
  dsimp only
  split
  · exact .refl _ _
  · exact .push _ _ _ (by simp [Undrilled])

private theorem undrilled_moves (setup : Setup ℝ) (top safe : ℝ) :
    Moves Undrilled setup top safe where
  comment _ _ _ := .push _ _ _ (by simp [Undrilled, Record.comment])
  travel w dest := by
    have hlifted : Adds Undrilled w (w.lifted safe) := by
      unfold lifted
      split
      · exact undrilled_lift _ _
      · exact .refl _ _
    refine hlifted.trans ?_
    exact (commands_travelTo dest none).imp fun line hline => by simp [Undrilled, hline.1]
  surface _ := undrilled_lift _ _
  height w z feed := by
    unfold moveToHeight
    split
    · exact .push _ _ _ (by simp [Undrilled])
    · split
      · exact undrilled_lift _ _
      · exact .refl _ _
  line _ _ _ _ := .push _ _ _ (by simp [Undrilled])
  arc _ _ _ _ _ _ _ := .push _ _ _ (by simp [Undrilled])

end Writer

namespace HoleParams

/-- Behind some lines the drill can go on from a depth: it is at the surface and has not cut yet, or
it was brought out of the last cut and back to the clearance over its depth. -/
inductive Ready (p : HoleParams ℝ) (setup : Setup ℝ) : List (Written ℝ) → Head ℝ → ℝ → Prop
  | first {lines : List (Written ℝ)} {head : Head ℝ}
      (uncut : ∀ line ∈ lines, Undrilled line)
      (near : |head.z - p.top| ≤ Writer.moveTolerance) : Ready p setup lines head p.top
  | again {earlier out back : List (Written ℝ)} {peck : Written ℝ} {surface head : Head ℝ}
      (kind : peck.record.kind = .drill) (leaves : Brings setup p.top peck.after out surface)
      (returns : Brings setup (peck.after.z + 0.5) surface back head) :
      Ready p setup (earlier ++ peck :: (out ++ back)) head peck.after.z

/-- A cut straight down, which goes no further than a peck below what is drilled already. -/
structure Pecks (p : HoleParams ℝ) (setup : Setup ℝ) (front : List (Written ℝ)) (line : Written ℝ) :
    Prop where
  command : line.record.IsCommand "G01" [('Z', setup.heightText line.before.xy line.after.z),
    ('F', Writer.feedText p.plungeRate)]
  straight : line.after.xy = line.before.xy
  ready : ∃ depth, p.Ready setup front line.before depth ∧ depth - p.peck ≤ line.after.z

variable (p : HoleParams ℝ) (setup : Setup ℝ) (w : Writer ℝ)

private theorem exists_writes_peckTo (z : ℝ) :
    ∃ (peck : Written ℝ) (out back : List (Written ℝ)) (surface : Head ℝ),
      Writes w (peck :: (out ++ back)) (p.peckTo setup w z) ∧ peck.record.kind = .drill ∧
        peck.record.IsCommand "G01"
          [('Z', setup.heightText w.head.xy z), ('F', Writer.feedText p.plungeRate)] ∧
        peck.before = w.head ∧ peck.after = { w.head with z := z } ∧
        Brings setup p.top peck.after out surface ∧
        if p.bottom < z then
          Brings setup (z + 0.5) surface back (p.peckTo setup w z).head
        else back = [] := by
  have hcut : Adds _ w (w.drillTo setup z p.plungeRate) :=
    Writer.commands_cutTo rfl setup z p.plungeRate
  have hdown : Writes w [_] (w.drillTo setup z p.plungeRate) := .push w _ _
  obtain ⟨out, hout, hleaves⟩ := (w.drillTo setup z p.plungeRate).exists_brings setup p.top
  obtain ⟨back, hback, hreturns⟩ :=
    ((w.drillTo setup z p.plungeRate).rapidToCorrected setup p.top).exists_brings setup (z + 0.5)
  unfold peckTo
  dsimp only
  split
  · exact ⟨_, out, back, _, (hdown.trans hout).trans hback, rfl, hcut.of_push.2, rfl, rfl, hleaves,
      hreturns⟩
  · refine ⟨_, out, [], _, ?_, rfl, hcut.of_push.2, rfl, rfl, hleaves, rfl⟩
    rw [List.append_nil]
    exact hdown.trans hout

variable {p setup w}

private theorem exists_pecks_peckTo {lines : List (Written ℝ)} {depth z : ℝ}
    (ready : p.Ready setup lines w.head depth) (shallow : depth - p.peck ≤ z) :
    ∃ later, Writes w later (p.peckTo setup w z) ∧ (drills later).map (·.after.z) = [z] ∧
      Justified (fun front line => line.record.kind = .drill → p.Pecks setup (lines ++ front) line)
        later ∧
      (p.bottom < z → p.Ready setup (lines ++ later) (p.peckTo setup w z).head z) := by
  obtain ⟨peck, out, back, surface, hwrites, hkind, hcommand, hbefore, hafter, hleaves, hreturns⟩ :=
    p.exists_writes_peckTo setup w z
  have hz : peck.after.z = z := by rw [hafter]
  have hback : ∀ line ∈ back, line.record.kind = .lift := by
    split at hreturns
    · exact hreturns.lift
    · simp [hreturns]
  have hundrilled : ∀ line ∈ out ++ back, Undrilled line := by
    intro line hline
    rcases List.mem_append.mp hline with hout | hin
    · simp [Undrilled, hleaves.lift line hout]
    · simp [Undrilled, hback line hin]
  refine ⟨peck :: (out ++ back), hwrites, ?_, ?_, fun habove => ?_⟩
  · have hrest : drills (out ++ back) = [] := drills_eq_nil hundrilled
    rw [drills, List.filter_cons_of_pos (by simpa using hkind), ← drills, hrest, List.map_singleton,
      hz]
  · have hpeck : p.Pecks setup lines peck := by
      refine ⟨?_, ?_, depth, ?_, ?_⟩
      · rw [hbefore, hz]
        exact hcommand
      · rw [hafter, hbefore]
        rfl
      · rw [hbefore]
        exact ready
      · rw [hz]
        exact shallow
    have hfirst : Justified (fun front line => line.record.kind = .drill →
        p.Pecks setup (lines ++ front) line) [peck] :=
      .singleton fun _ => by rwa [List.append_nil]
    exact hfirst.append (.of_undrilled hundrilled)
  · rw [if_pos habove] at hreturns
    rw [← hz] at hreturns ⊢
    exact .again hkind hleaves hreturns

private theorem exists_pecks_foldl {depths : List ℝ} {depth : ℝ}
    (chain : (depth :: depths).IsChain (Layers.Deeper p.peck p.bottom)) {lines : List (Written ℝ)}
    (ready : p.bottom < depth → p.Ready setup lines w.head depth) :
    ∃ later, Writes w later (depths.foldl (p.peckTo setup) w) ∧
      (drills later).map (·.after.z) = depths ∧
      Justified (fun front line => line.record.kind = .drill → p.Pecks setup (lines ++ front) line)
        later := by
  induction depths generalizing lines depth w with
  | nil => exact ⟨[], .refl w, rfl, .of_undrilled (by simp)⟩
  | cons z depths ih =>
    obtain ⟨hdeeper, hchain⟩ := List.isChain_cons_cons.mp chain
    obtain ⟨first, hfirst, hheight, hpecks, hready⟩ :=
      exists_pecks_peckTo (ready hdeeper.above) hdeeper.shallow
    obtain ⟨rest, hrest, hheights, hlater⟩ := ih hchain hready
    refine ⟨first ++ rest, hfirst.trans hrest, ?_, hpecks.append ?_⟩
    · rw [drills_append, List.map_append, hheight, hheights, List.singleton_append]
    · simpa only [List.append_assoc] using hlater

/-- A hole with a positive peck and its bottom below its surface is drilled in pecks. From its
surface down, they are as many as fit, with a last one for what is left, which ends at the bottom.
Before the first cut the drill is at the surface; before each other one it was brought out of the
cut before it to the surface and back to the clearance over its depth; and none goes further than a
peck below what is drilled already. The head ends at the safe height over the center. -/
theorem drill_in_pecks (p : HoleParams ℝ) (setup : Setup ℝ) (w : Writer ℝ) (center : Point ℝ)
    (deep : p.bottom < p.top) (positive : 0 < p.peck) :
    ∃ lines, Writes w lines (p.drill w setup center) ∧
      (drills lines).map (·.after.z) = (List.range (Layers.stepCount p.top p.peck p.bottom)).map
        (fun k => Layers.depthAfter p.top p.peck p.bottom (k + 1)) ∧
      ((drills lines).map (·.after.z)).getLast? = some p.bottom ∧
      (∀ front line back, lines = front ++ line :: back → line.record.kind = .drill →
        p.Pecks setup front line) ∧
      |(p.drill w setup center).head.z - p.safe| ≤ Writer.moveTolerance ∧
      (p.drill w setup center).head.xy.distance center ≤ positionTolerance := by
  have hdrill : p.drill w setup center =
      ((Layers.descent p.top p.peck p.bottom).foldl (p.peckTo setup)
        ((p.approach w setup center).comment "Peck drilling cycle")).rapidTo p.safe := by
    have hpositive : ¬ p.peck ≤ 0.0 := by
      norm_num
      exact positive
    rw [drill, if_neg hpositive]
  have happroach : Adds Undrilled w
      ((p.approach w setup center).comment "Peck drilling cycle") :=
    (p.adds_approach (Writer.undrilled_moves setup p.top p.safe) w center).trans
      (.push _ _ _ (by simp [Undrilled, Record.comment]))
  have hnear : |((p.approach w setup center).comment "Peck drilling cycle").head.z - p.top| ≤
      Writer.moveTolerance := p.near_approach w setup center
  have hover := p.over_drill w setup center
  rw [hdrill] at hover ⊢
  generalize (p.approach w setup center).comment "Peck drilling cycle" = surface at *
  obtain ⟨way, hway, huncut⟩ := happroach.exists_writes
  obtain ⟨pecks, hpecks, hheights, hjustified⟩ :=
    exists_pecks_foldl (Layers.isChain_descent p.top p.peck p.bottom)
      fun _ => (.first huncut hnear : p.Ready setup way surface.head p.top)
  generalize (Layers.descent p.top p.peck p.bottom).foldl (p.peckTo setup) surface = floor at *
  have hlift : Adds Undrilled floor (floor.rapidTo p.safe) := Writer.undrilled_lift _ _
  obtain ⟨last, hlast, hidle⟩ := hlift.exists_writes
  have hcuts : (drills (way ++ pecks ++ last)).map (·.after.z) =
      Layers.descent p.top p.peck p.bottom := by
    rw [drills_append, drills_append, drills_eq_nil huncut, drills_eq_nil hidle, List.nil_append,
      List.append_nil, hheights]
  refine ⟨way ++ pecks ++ last, (hway.trans hpecks).trans hlast, ?_, ?_, ?_,
    floor.near_rapidTo p.safe, hover⟩
  · rw [hcuts, Layers.descent_eq positive]
  · rw [hcuts, Layers.getLast?_descent positive deep]
  · exact (Justified.append (.of_undrilled huncut) hjustified).append (.of_undrilled hidle)

/-- A hole of two and a half pecks takes three, the last one half as deep as the others. -/
theorem drill_in_pecks_last_half :
    let p : HoleParams ℝ := ⟨0, -2.5, 1, 100, 200, 5⟩
    let w : Writer ℝ := .start ⟨9, 9, 0⟩
    p.bottom < p.top ∧ 0 < p.peck ∧
      ∃ lines, Writes w lines (p.drill w .identity ⟨1, 2⟩) ∧
        (drills lines).map (·.after.z) = [-1, -2, -2.5] ∧
        ∀ front line back, lines = front ++ line :: back → line.record.kind = .drill →
          p.Pecks .identity front line := by
  intro p w
  have hdeep : p.bottom < p.top := by norm_num [p]
  have hpositive : 0 < p.peck := by norm_num [p]
  obtain ⟨lines, hlines, hheights, -, hpecks, -, -⟩ :=
    p.drill_in_pecks .identity w ⟨1, 2⟩ hdeep hpositive
  refine ⟨hdeep, hpositive, lines, hlines, ?_, hpecks⟩
  have hcount : Layers.stepCount p.top p.peck p.bottom = 3 := by
    rw [Layers.stepCount, Nat.ceil_eq_iff (by decide)]
    norm_num [p]
  rw [hheights, hcount]
  norm_num [List.range_succ, Layers.depthAfter, p]

end HoleParams

end Toolpath
