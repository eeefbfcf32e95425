import Toolpath.Proofs.Layers.Descent
import Toolpath.Proofs.Program.Places
import Toolpath.Proofs.Program.Words

/-!
Holes milled along a spiral, in exact arithmetic. Full circles follow each other from the surface
down, each a pitch deeper and the last one as deep as is left; then there are a circle along the
floor and a cut to the center. The way to the first circle is left out where the head is near its
start.
-/

set_option autoImplicit false

namespace Toolpath

open Writer (Adds Writes)

/-- The point at some distance from a center in the first direction of the bed. -/
noncomputable def Point.beside (center : Point ℝ) (radius : ℝ) : Point ℝ :=
  ⟨center.x + radius, center.y⟩

private theorem Point.distance_beside (center : Point ℝ) {radius : ℝ} (h : 0 ≤ radius) :
    (center.beside radius).distance center = radius := by
  simp [beside, distance, Scalar.hypot, Real.sqrt_sq h]

/-- A full clockwise circle around a center, from beside it and back, which may end at another
height. -/
structure Circles (setup : Setup ℝ) (center : Point ℝ) (radius feed : ℝ) (line : Written ℝ) :
    Prop where
  kind : line.record.kind = .mill
  command : line.record.IsCommand "G02"
    [('X', Scalar.coordinate (center.beside radius).x),
      ('Y', Scalar.coordinate (center.beside radius).y),
      ('Z', setup.heightText (center.beside radius) line.after.z),
      ('I', Scalar.coordinate (center.x - line.before.x)),
      ('J', Scalar.coordinate (center.y - line.before.y)), ('F', Writer.feedText feed)]
  length : line.record.distance =
    √((2 * Real.pi * radius) ^ 2 + (line.before.z - line.after.z) ^ 2)
  before : line.before.xy.distance (center.beside radius) ≤ Writer.moveTolerance
  after : line.after.xy = center.beside radius

/-- Lines that follow each other without a gap from one position of the head to another. -/
inductive Leads : Head ℝ → List (Written ℝ) → Head ℝ → Prop
  | nil (head : Head ℝ) : Leads head [] head
  | cons {line : Written ℝ} {rest : List (Written ℝ)} {head : Head ℝ}
      (follows : Leads line.after rest head) : Leads line.before (line :: rest) head

private theorem Leads.append {head head' head'' : Head ℝ} {lines later : List (Written ℝ)}
    (h : Leads head lines head') (k : Leads head' later head'') :
    Leads head (lines ++ later) head'' := by
  induction h with
  | nil => exact k
  | cons _ ih => exact .cons (ih k)

def Uncut (line : Written ℝ) : Prop := line.record.kind.isCutting = false

private theorem Writer.uncut_lift (w : Writer ℝ) (z : ℝ) {text : String} (h : ' ' ∉ text.toList) :
    Adds Uncut w (w.lift z text) :=
  (commands_lift z h).imp fun line hline => by simp [Uncut, hline.1, RecordKind.isCutting]

private theorem Writer.exists_millLine (w : Writer ℝ) (setup : Setup ℝ) (dest : Point ℝ)
    (z feed : ℝ) :
    ∃ line, Writes w [line] (w.millLine setup dest z feed) ∧ line.record.kind = .mill ∧
      line.record.IsCommand "G01"
        [('X', Scalar.coordinate dest.x), ('Y', Scalar.coordinate dest.y),
          ('Z', setup.heightText dest z), ('F', feedText feed)] ∧
      line.before = w.head ∧ line.after = dest.atHeight z := by
  have hline := (commands_millLine (w := w) setup dest z feed).of_push
  exact ⟨_, .push w _ _, hline.1, hline.2, rfl, rfl⟩

namespace HoleParams

noncomputable def circle (p : HoleParams ℝ) (setup : Setup ℝ) (center : Point ℝ) (radius : ℝ)
    (w : Writer ℝ) (z : ℝ) : Writer ℝ :=
  w.millArc setup (center.beside radius) center false z (2.0 * Scalar.pi * radius) p.feedRate

variable (p : HoleParams ℝ) (setup : Setup ℝ) (center : Point ℝ) (radius : ℝ) {w : Writer ℝ}

private theorem exists_circle (z : ℝ)
    (near : w.head.xy.distance (center.beside radius) ≤ Writer.moveTolerance) :
    ∃ line, Writes w [line] (p.circle setup center radius w z) ∧
      Circles setup center radius p.feedRate line ∧ line.before = w.head ∧
      line.after = (center.beside radius).atHeight z := by
  have harc := (Writer.commands_millArc (w := w) setup (center.beside radius) center false z
    (2.0 * Scalar.pi * radius) p.feedRate).of_push
  refine ⟨_, .push w _ _, ⟨harc.1, harc.2, ?_, near, rfl⟩, rfl, rfl⟩
  have htwo : (2.0 : ℝ) = 2 := by norm_num
  show √((2.0 * Real.pi * radius) ^ 2 + (w.head.z - z) ^ 2) = _
  rw [htwo]
  rfl

private theorem exists_circles_foldl {depths : List ℝ} {depth : ℝ}
    (chain : (depth :: depths).IsChain (Layers.Deeper p.pitch p.bottom))
    (near : w.head.xy.distance (center.beside radius) ≤ Writer.moveTolerance)
    (low : w.head.z ≤ depth + Writer.moveTolerance) :
    ∃ turns, Writes w turns (depths.foldl (p.circle setup center radius) w) ∧
      turns.map (·.after.z) = depths ∧
      (∀ turn ∈ turns, Circles setup center radius p.feedRate turn ∧
        turn.before.z - turn.after.z ≤ p.pitch + Writer.moveTolerance) ∧
      Leads w.head turns (depths.foldl (p.circle setup center radius) w).head := by
  induction depths generalizing w depth with
  | nil => exact ⟨[], .refl w, rfl, by simp, .nil w.head⟩
  | cons z depths ih =>
    obtain ⟨hdeeper, hchain⟩ := List.isChain_cons_cons.mp chain
    obtain ⟨line, hline, hcircle, hbefore, hafter⟩ :=
      p.exists_circle setup center radius z near
    have hstart : line.after.xy.distance (center.beside radius) ≤ Writer.moveTolerance := by
      rw [hcircle.after]
      exact Writer.distance_self_le _
    have hz : line.after.z = z := by
      rw [hafter]
      rfl
    have hhead : (p.circle setup center radius w z).head = line.after := hafter.symm
    have hlow : line.after.z ≤ z + Writer.moveTolerance := by
      rw [hz]
      exact le_add_of_nonneg_right Writer.moveTolerance_nonneg
    obtain ⟨rest, hrest, hheights, hturns, hleads⟩ :=
      ih (w := p.circle setup center radius w z) hchain (hhead ▸ hstart) (hhead ▸ hlow)
    have hdescends : line.before.z - line.after.z ≤ p.pitch + Writer.moveTolerance := by
      have hshallow := hdeeper.shallow
      rw [hbefore, hz]
      linarith
    refine ⟨line :: rest, hline.trans hrest, ?_, ?_, ?_⟩
    · rw [List.map_cons, hz, hheights]
    · exact List.forall_mem_cons.mpr ⟨⟨hcircle, hdescends⟩, hturns⟩
    · rw [hhead] at hleads
      rw [← hbefore]
      exact .cons hleads

private theorem pitch_eq : p.pitch = if 0 < p.peck then p.peck else 1 := by
  norm_num [pitch, defaultPitch]

private theorem pitch_pos : 0 < p.pitch := by
  rw [pitch_eq]
  split
  · assumption
  · exact one_pos

private theorem head_circles (deep : p.bottom < p.top) (w : Writer ℝ) :
    ((Layers.descent p.top p.pitch p.bottom).foldl (p.circle setup center radius) w).head =
      (center.beside radius).atHeight p.bottom := by
  obtain ⟨depths, hdepths⟩ :=
    List.getLast?_eq_some_iff.mp (Layers.getLast?_descent p.pitch_pos deep)
  rw [hdepths, List.foldl_append]
  rfl

/-- The cuts of a spiral from some position of the head: circles from the surface down to the
bottom, a circle along the bottom, and a line to the center. -/
structure Spiral (p : HoleParams ℝ) (setup : Setup ℝ) (center : Point ℝ) (radius : ℝ)
    (head : Head ℝ) (turns : List (Written ℝ)) (floor last : Written ℝ) : Prop where
  follows : Leads head (turns ++ [floor, last]) (center.atHeight p.bottom)
  heights : turns.map (·.after.z) = (List.range (Layers.stepCount p.top p.pitch p.bottom)).map
    fun k => Layers.depthAfter p.top p.pitch p.bottom (k + 1)
  circles : ∀ line ∈ turns ++ [floor], Circles setup center radius p.feedRate line ∧
    line.before.z - line.after.z ≤ p.pitch + Writer.moveTolerance
  level : floor.before.z = p.bottom ∧ floor.after.z = p.bottom
  kind : last.record.kind = .mill
  command : last.record.IsCommand "G01"
    [('X', Scalar.coordinate center.x), ('Y', Scalar.coordinate center.y),
      ('Z', setup.heightText center p.bottom), ('F', Writer.feedText p.feedRate)]

/-- Milling all circles from the surface down, the one along the bottom, and the line to the center.
-/
noncomputable def mill (p : HoleParams ℝ) (setup : Setup ℝ) (center : Point ℝ) (radius : ℝ)
    (w : Writer ℝ) : Writer ℝ :=
  (p.circle setup center radius ((Layers.descent p.top p.pitch p.bottom).foldl
    (p.circle setup center radius) w) p.bottom).millLine setup center p.bottom p.feedRate

private theorem exists_spiral (deep : p.bottom < p.top)
    (near : w.head.xy.distance (center.beside radius) ≤ Writer.moveTolerance)
    (low : w.head.z ≤ p.top + Writer.moveTolerance) :
    ∃ turns floor last, Writes w (turns ++ [floor, last]) (p.mill setup center radius w) ∧
      p.Spiral setup center radius w.head turns floor last := by
  obtain ⟨turns, hturns, hheights, hcircles, hleads⟩ := p.exists_circles_foldl setup center radius
    (Layers.isChain_descent p.top p.pitch p.bottom) near low
  have hhead := p.head_circles setup center radius deep w
  unfold mill
  generalize (Layers.descent p.top p.pitch p.bottom).foldl (p.circle setup center radius) w =
    milled at *
  have hstart : milled.head.xy.distance (center.beside radius) ≤ Writer.moveTolerance := by
    rw [hhead]
    exact Writer.distance_self_le (center.beside radius)
  obtain ⟨floor, hfloor, hcircle, hbefore, hafter⟩ :=
    p.exists_circle setup center radius p.bottom hstart
  obtain ⟨last, hlast, hkind, hcommand, hfrom, hto⟩ :=
    (p.circle setup center radius milled p.bottom).exists_millLine setup center p.bottom p.feedRate
  have hlevel : floor.before.z = p.bottom ∧ floor.after.z = p.bottom := by
    rw [hbefore, hhead, hafter]
    exact ⟨rfl, rfl⟩
  refine ⟨turns, floor, last, ?_, ?_, ?_, ?_, hlevel, hkind, hcommand⟩
  · exact hturns.trans (hfloor.trans hlast)
  · refine hleads.append ?_
    have hnext : floor.after = last.before := hafter.trans hfrom.symm
    rw [← hbefore, ← hto]
    exact .cons (hnext ▸ .cons (.nil _))
  · rw [hheights, Layers.descent_eq p.pitch_pos]
  · have hflat : floor.before.z - floor.after.z ≤ p.pitch + Writer.moveTolerance := by
      rw [hlevel.1, hlevel.2, sub_self]
      exact add_nonneg p.pitch_pos.le Writer.moveTolerance_nonneg
    exact List.forall_mem_append.mpr ⟨hcircles, List.forall_mem_singleton.mpr ⟨hcircle, hflat⟩⟩

/-- The way to the first circle: over its start at the safe height, and down to the surface. -/
noncomputable def enter (p : HoleParams ℝ) (setup : Setup ℝ) (start : Point ℝ) (w : Writer ℝ) :
    Writer ℝ :=
  let w := ((w.comment "Helical interpolation cycle").lifted p.safe).travelTo start none
  if p.top < w.head.z then w.rapidToCorrected setup p.top else w

private theorem uncut_enter (start : Point ℝ) (w : Writer ℝ) :
    Adds Uncut w (p.enter setup start w) := by
  have hcomment : Adds Uncut w (w.comment "Helical interpolation cycle") := .push _ _ _ rfl
  have hlifted (w : Writer ℝ) : Adds Uncut w (w.lifted p.safe) := by
    unfold Writer.lifted
    split
    · exact w.uncut_lift p.safe (blank_notMem_coordinate p.safe)
    · exact .refl _ _
  have htravel (w : Writer ℝ) : Adds Uncut w (w.travelTo start none) :=
    (Writer.commands_travelTo start none).imp fun line hline => by
      simp [Uncut, hline.1, RecordKind.isCutting]
  have hover := (hcomment.trans (hlifted _)).trans (htravel _)
  unfold enter
  dsimp only
  split
  · exact hover.trans (Writer.uncut_lift _ p.top (blank_notMem_height setup _ p.top))
  · exact hover

private theorem near_enter (clear : p.top ≤ p.safe) (start : Point ℝ) (w : Writer ℝ) :
    |(p.enter setup start w).head.z - p.top| ≤ Writer.moveTolerance := by
  have hhigh (w : Writer ℝ) :
      p.safe - Writer.moveTolerance ≤ ((w.lifted p.safe).travelTo start none).head.z := by
    rw [Writer.z_travelTo]
    exact w.le_lifted p.safe
  unfold enter
  dsimp only
  split
  · exact Writer.near_rapidToCorrected _ setup p.top
  · next hnotAbove =>
    have hbelow := not_lt.mp hnotAbove
    have habove := hhigh (w.comment "Helical interpolation cycle")
    rw [abs_le]
    constructor <;> linarith

private theorem xy_enter (start : Point ℝ) (w : Writer ℝ) :
    (p.enter setup start w).head.xy = start ∨
      (p.enter setup start w).head.xy = w.head.xy ∧
        w.head.xy.distance start ≤ Writer.moveTolerance := by
  have hdown (w : Writer ℝ) :
      (if p.top < w.head.z then w.rapidToCorrected setup p.top else w).head.xy = w.head.xy := by
    split
    · exact w.xy_rapidToCorrected setup p.top
    · rfl
  have hover : (p.enter setup start w).head.xy =
      if w.head.xy.distance start ≤ Writer.moveTolerance then w.head.xy else start := by
    unfold enter
    dsimp only
    rw [hdown, Writer.xy_travelTo, Writer.xy_lifted, Writer.xy_comment]
  rw [hover]
  split
  · next hnear => exact Or.inr ⟨rfl, hnear⟩
  · exact Or.inl rfl

private theorem bore_eq (w : Writer ℝ) {radius holeRadius bitDiameter : ℝ}
    (hradius : holeRadius - bitDiameter / 2 = radius)
    (wide : positionTolerance < radius) :
    p.bore w setup center holeRadius bitDiameter =
      (p.mill setup center radius (p.enter setup (center.beside radius) w)).rapidTo p.safe := by
  have htwo : bitDiameter / 2.0 = bitDiameter / 2 := by norm_num
  unfold bore
  dsimp only
  rw [htwo, hradius, if_neg (not_le.mpr wide)]
  rfl

/-- A hole that is wider than the bit, by more than the tolerance of positions, is milled along a
spiral. No other lines for it cut. The circles have the radius that is left for the bit; they begin
at the surface, beside the center, and each of them ends a pitch deeper until the bottom is reached.
The head ends at the safe height over the center. -/
theorem bore_spiral (p : HoleParams ℝ) (setup : Setup ℝ) (w : Writer ℝ) (center : Point ℝ)
    (holeRadius bitDiameter : ℝ) (wide : positionTolerance < holeRadius - bitDiameter / 2)
    (deep : p.bottom < p.top) (clear : p.top ≤ p.safe) :
    let radius := holeRadius - bitDiameter / 2
    let start := center.beside radius
    let w' := p.bore w setup center holeRadius bitDiameter
    start.distance center = radius ∧ p.pitch = (if 0 < p.peck then p.peck else 1) ∧
      (∃ (head : Head ℝ) (way turns back : List (Written ℝ)) (floor last : Written ℝ),
        Writes w (way ++ (turns ++ [floor, last]) ++ back) w' ∧
        (∀ line ∈ way ++ back, Uncut line) ∧ |head.z - p.top| ≤ Writer.moveTolerance ∧
        (head.xy = start ∨
          head.xy = w.head.xy ∧ w.head.xy.distance start ≤ Writer.moveTolerance) ∧
        p.Spiral setup center radius head turns floor last) ∧
      w'.head.xy = center ∧ |w'.head.z - p.safe| ≤ Writer.moveTolerance := by
  intro radius start w'
  have hpositive : 0 < radius := positionTolerance_pos.trans wide
  have hxy := p.xy_enter setup start w
  have hz := p.near_enter setup clear start w
  have hnear : (p.enter setup start w).head.xy.distance start ≤ Writer.moveTolerance := by
    rcases hxy with hstart | ⟨hsame, hnear⟩
    · rw [hstart]
      exact Writer.distance_self_le start
    · rwa [hsame]
  have hlow : (p.enter setup start w).head.z ≤ p.top + Writer.moveTolerance := by
    linarith [(abs_le.mp hz).2]
  obtain ⟨way, hway, huncut⟩ := (p.uncut_enter setup start w).exists_writes
  obtain ⟨turns, floor, last, hcuts, hspiral⟩ := p.exists_spiral setup center radius deep hnear hlow
  obtain ⟨back, hback, hidle⟩ := ((p.mill setup center radius (p.enter setup start w)).uncut_lift
    p.safe (blank_notMem_coordinate p.safe)).exists_writes
  have hbore : w' = (p.mill setup center radius (p.enter setup start w)).rapidTo p.safe :=
    p.bore_eq setup center w rfl wide
  rw [hbore]
  refine ⟨Point.distance_beside center hpositive.le, p.pitch_eq, ?_, ?_, Writer.near_rapidTo _ _⟩
  · exact ⟨_, way, turns, back, floor, last, (hway.trans hcuts).trans hback,
      List.forall_mem_append.mpr ⟨huncut, hidle⟩, hz, hxy, hspiral⟩
  · rw [Writer.xy_rapidTo]
    rfl

/-- Without a step the pitch is one: three circles down two and a half millimetres. -/
theorem bore_spiral_default_pitch :
    let p : HoleParams ℝ := ⟨0, -2.5, 0, 100, 200, 5⟩
    let w : Writer ℝ := .start ⟨9, 9, 0⟩
    positionTolerance < (5 : ℝ) - 3 / 2 ∧ p.bottom < p.top ∧ p.top ≤ p.safe ∧
      ∃ (head : Head ℝ) (way turns back : List (Written ℝ)) (floor last : Written ℝ),
        Writes w (way ++ (turns ++ [floor, last]) ++ back) (p.bore w .identity ⟨1, 2⟩ 5 3) ∧
        turns.map (·.after.z) = [-1, -2, -2.5] ∧
        p.Spiral .identity ⟨1, 2⟩ (5 - 3 / 2) head turns floor last := by
  intro p w
  have hwide : positionTolerance < (5 : ℝ) - 3 / 2 := by norm_num [positionTolerance]
  have hdeep : p.bottom < p.top := by norm_num [p]
  have hclear : p.top ≤ p.safe := by norm_num [p]
  obtain ⟨-, hpitch, ⟨head, way, turns, back, floor, last, hlines, -, -, -, hspiral⟩, -, -⟩ :=
    p.bore_spiral .identity w ⟨1, 2⟩ 5 3 hwide hdeep hclear
  refine ⟨hwide, hdeep, hclear, head, way, turns, back, floor, last, hlines, ?_, hspiral⟩
  have hone : p.pitch = 1 := hpitch.trans (if_neg (lt_irrefl _))
  have hcount : Layers.stepCount p.top p.pitch p.bottom = 3 := by
    rw [Layers.stepCount, Nat.ceil_eq_iff (by decide), hone]
    norm_num [p]
  rw [hspiral.heights, hcount, hone]
  norm_num [List.range_succ, Layers.depthAfter, p]

end HoleParams

end Toolpath
