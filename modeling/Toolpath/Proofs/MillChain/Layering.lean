import Toolpath.Proofs.Layers.Depths
import Toolpath.Proofs.MillChain.Piles

/-!
The layers of a mill chain, in exact arithmetic. The passes of a chain are one block after the
other, one for each piece of each cut. A block goes down from the surface to the floor of its piece;
its passes are linked one to the other, and none cuts deeper below the pass above it than the step.
-/

set_option autoImplicit false

namespace Toolpath

namespace Cut

noncomputable def heights (piece : FlooredPiece ℝ) (depth : ℝ) : ℝ × ℝ :=
  (max depth piece.floorStart, max depth piece.floorEnd)

/-- At most so much further down, at both ends. -/
def Steps (most : ℝ) (upper lower : ℝ × ℝ) : Prop :=
  upper.1 ≤ lower.1 + most ∧ upper.2 ≤ lower.2 + most

/-- A layer is left out if it is near the one above it at both ends. -/
def Repeats (above layer : ℝ × ℝ) : Prop :=
  |above.1 - layer.1| < Layers.depthTolerance ∧ |above.2 - layer.2| < Layers.depthTolerance

private theorem Steps.refl {most : ℝ} (hmost : 0 ≤ most) (layer : ℝ × ℝ) : Steps most layer layer :=
  ⟨le_add_of_nonneg_right hmost, le_add_of_nonneg_right hmost⟩

private theorem Steps.trans {a b : ℝ} {upper middle lower : ℝ × ℝ} (h : Steps a upper middle)
    (k : Steps b middle lower) : Steps (b + a) upper lower := by
  obtain ⟨hstart, hstop⟩ := h
  obtain ⟨kstart, kstop⟩ := k
  constructor <;> linarith

private theorem Repeats.steps {above layer : ℝ × ℝ} (h : Repeats above layer) :
    Steps Layers.depthTolerance above layer := by
  have hstart := (abs_lt.mp h.1).2
  have hstop := (abs_lt.mp h.2).2
  constructor <;> linarith

private theorem steps_heights (piece : FlooredPiece ℝ) {step depth next : ℝ} (hstep : 0 ≤ step)
    (h : Layers.Near step depth next) :
    Steps (step + Layers.depthTolerance) (heights piece depth) (heights piece next) := by
  have hpos := Layers.depthTolerance_pos
  have hend (floor : ℝ) : max depth floor ≤ max next floor + (step + Layers.depthTolerance) := by
    refine max_le ?_ ?_
    · exact h.trans (add_le_add_left (le_max_left _ _) _)
    · linarith [le_max_right next floor]
  exact ⟨hend _, hend _⟩

private theorem layersBelow_cons (piece : FlooredPiece ℝ) (above : Option (ℝ × ℝ)) (depth : ℝ)
    (rest : List ℝ) :
    (∃ last, above = some last ∧ Repeats last (heights piece depth) ∧
        layersBelow piece above (depth :: rest) = layersBelow piece above rest) ∨
      (∀ last, above = some last → ¬ Repeats last (heights piece depth)) ∧
        layersBelow piece above (depth :: rest) =
          heights piece depth :: layersBelow piece (some (heights piece depth)) rest := by
  rw [layersBelow]
  simp only [RealScalar.max_eq, RealScalar.abs_eq]
  cases above with
  | none => exact Or.inr ⟨by simp, rfl⟩
  | some last =>
    by_cases hrepeats : Repeats last (heights piece depth)
    · refine Or.inl ⟨last, rfl, hrepeats, if_pos ?_⟩
      simpa [Repeats, heights] using hrepeats
    · refine Or.inr ⟨by simpa using hrepeats, if_neg ?_⟩
      simpa [Repeats, heights] using hrepeats

private theorem layersBelow_sublist (piece : FlooredPiece ℝ) (above : Option (ℝ × ℝ))
    (depths : List ℝ) :
    (layersBelow piece above depths).Sublist (depths.map (heights piece)) := by
  induction depths generalizing above with
  | nil => exact List.Sublist.slnil
  | cons depth rest ih =>
    rcases layersBelow_cons piece above depth rest with ⟨-, -, -, hskip⟩ | ⟨-, hkeep⟩
    · rw [hskip]
      exact (ih above).trans (List.sublist_cons_self _ _)
    · rw [hkeep]
      exact (ih _).cons_cons _

private theorem not_repeats_floor {piece : FlooredPiece ℝ} {floor depth : ℝ}
    (hfloor : floor = min piece.floorStart piece.floorEnd)
    (habove : floor + Layers.depthTolerance < depth) :
    ¬ Repeats (heights piece depth) (heights piece floor) := by
  rintro ⟨hstart, hstop⟩
  have hupper := Layers.depthTolerance_pos
  rcases min_choice piece.floorStart piece.floorEnd with hmin | hmin
  · have hlow : floor = piece.floorStart := hfloor.trans hmin
    have hfar : depth - floor ≤ |max depth piece.floorStart - max floor piece.floorStart| := by
      rw [← hlow, max_self, max_eq_left (by linarith)]
      exact le_abs_self _
    exact absurd hstart (not_lt.mpr (le_trans (by linarith) hfar))
  · have hlow : floor = piece.floorEnd := hfloor.trans hmin
    have hfar : depth - floor ≤ |max depth piece.floorEnd - max floor piece.floorEnd| := by
      rw [← hlow, max_self, max_eq_left (by linarith)]
      exact le_abs_self _
    exact absurd hstop (not_lt.mpr (le_trans (by linarith) hfar))

private theorem getLast?_layersBelow {piece : FlooredPiece ℝ} {floor : ℝ}
    (hfloor : floor = min piece.floorStart piece.floorEnd) {upper : List ℝ}
    (hupper : ∀ d ∈ upper, floor + Layers.depthTolerance < d) {above : Option (ℝ × ℝ)}
    (habove : ∀ last, above = some last →
      ∃ d, floor + Layers.depthTolerance < d ∧ last = heights piece d) :
    (layersBelow piece above (upper ++ [floor])).getLast? =
      some (piece.floorStart, piece.floorEnd) := by
  induction upper generalizing above with
  | nil =>
    have hheights : heights piece floor = (piece.floorStart, piece.floorEnd) := by
      rw [heights, max_eq_right (hfloor ▸ min_le_left _ _), max_eq_right (hfloor ▸ min_le_right _ _)]
    rcases layersBelow_cons piece above floor [] with ⟨last, hlast, hrepeats, -⟩ | ⟨-, hkeep⟩
    · obtain ⟨d, hd, rfl⟩ := habove last hlast
      exact absurd hrepeats (not_repeats_floor hfloor hd)
    · rw [List.nil_append, hkeep, layersBelow, hheights]
      rfl
  | cons depth rest ih =>
    have hdepth := hupper depth List.mem_cons_self
    have hrest : ∀ d ∈ rest, floor + Layers.depthTolerance < d :=
      fun d hd => hupper d (List.mem_cons_of_mem _ hd)
    rw [List.cons_append]
    rcases layersBelow_cons piece above depth (rest ++ [floor]) with ⟨-, -, -, hskip⟩ | ⟨-, hkeep⟩
    · rw [hskip]
      exact ih hrest habove
    · have habove : ∀ last, some (heights piece depth) = some last →
          ∃ d, floor + Layers.depthTolerance < d ∧ last = heights piece d :=
        fun last heq => ⟨depth, hdepth, (Option.some.inj heq).symm⟩
      rw [hkeep, List.getLast?_cons, ih hrest habove]
      rfl

private theorem isChain_layersBelow {piece : FlooredPiece ℝ} {step depth : ℝ} (hstep : 0 ≤ step)
    {depths : List ℝ} (hdepths : List.IsChain (Layers.Near step) (depth :: depths))
    {above : Option (ℝ × ℝ)} {last : ℝ × ℝ} (habove : ∀ a, above = some a → a = last)
    (hlast : Steps Layers.depthTolerance last (heights piece depth)) :
    List.IsChain (Steps (step + Layers.depthTolerance + Layers.depthTolerance))
      (last :: layersBelow piece above depths) := by
  induction depths generalizing depth above last with
  | nil => simp [layersBelow]
  | cons next rest ih =>
    obtain ⟨hnear, hrest⟩ := List.isChain_cons_cons.mp hdepths
    rcases layersBelow_cons piece above next rest with ⟨a, ha, hrepeats, hskip⟩ | ⟨-, hkeep⟩
    · obtain rfl := habove a ha
      rw [hskip]
      exact ih hrest habove hrepeats.steps
    · have hfirst := hlast.trans (steps_heights piece hstep hnear)
      have habove : ∀ a, some (heights piece next) = some a → a = heights piece next :=
        fun a ha => (Option.some.inj ha).symm
      have hlater := ih hrest habove (.refl Layers.depthTolerance_pos.le _)
      rw [hkeep]
      exact List.isChain_cons_cons.mpr ⟨hfirst, hlater⟩

private theorem getLast?_layers (piece : FlooredPiece ℝ) (top : ℝ) (step : Option ℝ) :
    (layers piece top step).getLast? = some (piece.floorStart, piece.floorEnd) := by
  have hfloor := RealScalar.min_eq piece.floorStart piece.floorEnd
  obtain ⟨upper, hdepths, hupper⟩ :=
    Layers.depths_eq top step (Scalar.min piece.floorStart piece.floorEnd)
  unfold layers
  rw [hdepths]
  exact getLast?_layersBelow hfloor hupper (by simp)

private theorem floor_le_of_mem_layers {piece : FlooredPiece ℝ} {top : ℝ} {step : Option ℝ}
    {layer : ℝ × ℝ} (h : layer ∈ layers piece top step) :
    piece.floorStart ≤ layer.1 ∧ piece.floorEnd ≤ layer.2 := by
  have hmem := (layersBelow_sublist piece none _).subset h
  obtain ⟨depth, -, rfl⟩ := List.mem_map.mp hmem
  exact ⟨le_max_right _ _, le_max_right _ _⟩

private theorem pairwise_layers (piece : FlooredPiece ℝ) (top : ℝ) (step : Option ℝ) :
    (layers piece top step).Pairwise fun upper lower => lower.1 ≤ upper.1 ∧ lower.2 ≤ upper.2 := by
  have hdepths := Layers.pairwise_depths top step (Scalar.min piece.floorStart piece.floorEnd)
  refine List.Pairwise.sublist (layersBelow_sublist piece none _) (List.pairwise_map.mpr ?_)
  exact hdepths.imp fun hle => ⟨max_le_max_right _ hle, max_le_max_right _ hle⟩

private theorem isChain_layers {step : ℝ} (hstep : 0 < step) (piece : FlooredPiece ℝ) (top : ℝ) :
    List.IsChain (Steps (step + 2e-6)) ((top, top) :: layers piece top (some step)) := by
  have hdepths := Layers.isChain_depths hstep top (Scalar.min piece.floorStart piece.floorEnd)
  have hpos := Layers.depthTolerance_pos
  have hfirst : Steps Layers.depthTolerance (top, top) (heights piece top) := by
    have hend (floor : ℝ) : top ≤ max top floor + Layers.depthTolerance :=
      (le_max_left top floor).trans (le_add_of_nonneg_right hpos.le)
    exact ⟨hend _, hend _⟩
  have htwice : step + Layers.depthTolerance + Layers.depthTolerance = step + 2e-6 := by
    change step + 1e-6 + 1e-6 = step + 2e-6
    norm_num [add_assoc]
  have habove : ∀ a : ℝ × ℝ, none = some a → a = (top, top) := by simp
  have hchain := isChain_layersBelow hstep.le hdepths habove hfirst
  rwa [htwice] at hchain

end Cut

namespace MillChain

/-- A piece of a cut and its passes, each with the number of the pass above it. -/
structure Block (α : Type) where
  cut : Cut α
  piece : FlooredPiece α
  passes : List (Pass α × Option Nat)

namespace Block

def heights {α : Type} (b : Block α) : List (α × α) :=
  b.passes.map fun e => (e.1.zStart, e.1.zEnd)

/-- A block the first pass of which has the number `first`. -/
structure Layered (first : Nat) (b : Block ℝ) : Prop where
  shapes : ∀ e ∈ b.passes, e.1.shape = b.piece.shape
  links : b.passes.map Prod.snd =
    (List.range b.passes.length).map fun i => if i = 0 then none else some (first + i - 1)
  descends : b.heights.Pairwise fun upper lower => lower.1 ≤ upper.1 ∧ lower.2 ≤ upper.2
  floors : ∀ layer ∈ b.heights, b.piece.floorStart ≤ layer.1 ∧ b.piece.floorEnd ≤ layer.2
  reaches : b.heights.getLast? = some (b.piece.floorStart, b.piece.floorEnd)
  steps : ∀ top step, b.cut.settings.get? .top = some top → b.cut.settings.get? .step = some step →
    0 < step → List.IsChain (Cut.Steps (step + 2e-6)) ((top, top) :: b.heights)

end Block

private theorem layered_of_isPile {owner : Cut ℝ × FlooredPiece ℝ} {pile : List (Pass ℝ)}
    (h : IsPile owner pile) (first : Nat) :
    Block.Layered first
      ⟨owner.1, owner.2, linked none ((pile.zipIdx first).map Prod.swap)⟩ := by
  obtain ⟨cut, piece⟩ := owner
  obtain ⟨top, feeds, sweep, htop, hpile⟩ := h
  have hpasses := map_fst_linked none first pile
  have hheights : Block.heights ⟨cut, piece, linked none ((pile.zipIdx first).map Prod.swap)⟩ =
      Cut.layers piece top (cut.settings.get? .step) := by
    have hmap := congrArg (List.map fun pass : Pass ℝ => (pass.zStart, pass.zEnd)) hpasses
    rw [List.map_map] at hmap
    refine hmap.trans ?_
    rw [hpile, Cut.pile, List.map_map]
    exact List.map_id _
  constructor
  · intro e he
    have hmem : e.1 ∈ pile := hpasses ▸ List.mem_map_of_mem he
    rw [hpile] at hmem
    obtain ⟨layer, -, hlayer⟩ := List.mem_map.mp hmem
    rw [← hlayer]
  · have hlength := congrArg List.length hpasses
    rw [List.length_map] at hlength
    dsimp only
    rw [map_snd_linked, hlength]
  · rw [hheights]
    exact Cut.pairwise_layers _ _ _
  · rw [hheights]
    exact fun layer => Cut.floor_le_of_mem_layers
  · rw [hheights]
    exact Cut.getLast?_layers _ _ _
  · intro top' step htop' hstep hpos
    obtain rfl := Option.some.inj (htop.symm.trans htop')
    dsimp only at hstep
    rw [hheights, hstep]
    exact Cut.isChain_layers hpos _ _

private theorem exists_blocks {pieces : List (Cut ℝ × FlooredPiece ℝ)}
    {piles : List (List (Pass ℝ))} (h : List.Forall₂ IsPile pieces piles) (first : Nat) :
    ∃ blocks : List (Block ℝ),
      (numbered first piles).flatMap (linked none) = blocks.flatMap Block.passes ∧
      (blocks.map fun b => (b.cut, b.piece)) = pieces ∧
      ∀ front b back, blocks = front ++ b :: back →
        b.Layered (first + (front.flatMap Block.passes).length) := by
  induction h generalizing first with
  | nil => exact ⟨[], rfl, rfl, by simp⟩
  | @cons owner pile pieces piles hpile _ ih =>
    obtain ⟨blocks, hpasses, howners, hlayered⟩ := ih (first + pile.length)
    let block : Block ℝ := ⟨owner.1, owner.2, linked none ((pile.zipIdx first).map Prod.swap)⟩
    have hlength : block.passes.length = pile.length := by
      rw [← List.length_map Prod.fst, map_fst_linked]
    refine ⟨block :: blocks, ?_, ?_, ?_⟩
    · rw [numbered, List.flatMap_cons, List.flatMap_cons, hpasses]
    · rw [List.map_cons, howners]
    · intro front b back hsplit
      cases front with
      | nil =>
        obtain ⟨rfl, -⟩ := List.cons_eq_cons.mp hsplit
        exact layered_of_isPile hpile first
      | cons head front =>
        obtain ⟨rfl, hrest⟩ := List.cons_eq_cons.mp hsplit
        have hb := hlayered front b back hrest
        rwa [List.flatMap_cons, List.length_append, hlength, ← Nat.add_assoc]

/-- A mill chain is layered. If the passes of a chain can be made, they are one block after the
other, one for each piece of each cut in their order. In every block the first pass is linked to no
other and every later one to the pass just before it; the heights never go up, nor below the floors
of the piece, and end at these floors; and with a positive step the first pass is at most the step
and the tolerance below the surface, and every later one below the pass before it. -/
theorem passes_layered (chain : MillChain ℝ) {passes : List (Pass ℝ × Option Nat)}
    (h : chain.passes = .ok passes) :
    ∃ blocks : List (Block ℝ), passes = blocks.flatMap Block.passes ∧
      chain.pieces = .ok (blocks.map fun b => (b.cut, b.piece)) ∧
      ∀ front b back, blocks = front ++ b :: back →
        b.Layered (front.flatMap Block.passes).length := by
  obtain ⟨piles, hpiles, h⟩ := Model.bind_eq_ok.mp h
  obtain rfl := Except.ok.inj h
  obtain ⟨pieces, hpieces, hpaired⟩ := exists_pieces hpiles
  obtain ⟨blocks, hpasses, howners, hlayered⟩ := exists_blocks hpaired 0
  refine ⟨blocks, hpasses, by rw [howners, hpieces], fun front b back hsplit => ?_⟩
  have hb := hlayered front b back hsplit
  rwa [Nat.zero_add] at hb

noncomputable def plainCut : Cut ℝ :=
  let plate := ((((Overlay.empty .path .nowhere).set .top 0.0).set .bottom (-2.0)).set .step 0.75)
  ⟨.line ⟨⟨0.0, 0.0⟩, ⟨0.0, 30.0⟩⟩, false, (Settings.ofDefaults .standard).push plate⟩

noncomputable def bridgedCut : Cut ℝ :=
  let bars := ((((Overlay.empty .mill .nowhere).set .barWidth 5.0).set .barRun 10.0).set
    .barHeight 0.5).set .barRamp 1.0
  { plainCut with settings := plainCut.settings.push bars }

private theorem exists_piles_bridgedCut : ∃ piles, bridgedCut.piles = .ok piles := by
  have hpieces : ∃ pieces, bridgedCut.pieces = .ok pieces := Cut.exists_pieces rfl rfl rfl
  obtain ⟨pieces, hpieces⟩ := hpieces
  exact ⟨_, Model.bind_eq_ok.mpr ⟨0.0, rfl, Model.bind_eq_ok.mpr ⟨⟨600.0, 600.0⟩, rfl,
    Model.bind_eq_ok.mpr ⟨10.0, rfl, Model.bind_eq_ok.mpr ⟨pieces, hpieces, rfl⟩⟩⟩⟩⟩

theorem passes_layered_bridged :
    ∃ (passes : List (Pass ℝ × Option Nat)) (blocks : List (Block ℝ)),
      MillChain.passes [plainCut, bridgedCut] = .ok passes ∧
      passes = blocks.flatMap Block.passes ∧
      MillChain.pieces [plainCut, bridgedCut] = .ok (blocks.map fun b => (b.cut, b.piece)) ∧
      ∀ front b back, blocks = front ++ b :: back →
        b.Layered (front.flatMap Block.passes).length := by
  obtain ⟨piles, hpiles⟩ := exists_piles_bridgedCut
  have hlater : MillChain.piles [bridgedCut] = .ok (piles ++ []) :=
    Model.bind_eq_ok.mpr ⟨piles, hpiles, rfl⟩
  have hall : ∃ all, MillChain.piles [plainCut, bridgedCut] = .ok all :=
    ⟨_, Model.bind_eq_ok.mpr ⟨_, rfl, Model.bind_eq_ok.mpr ⟨_, hlater, rfl⟩⟩⟩
  obtain ⟨all, hall⟩ := hall
  have hpasses : MillChain.passes [plainCut, bridgedCut] =
      .ok ((numbered 0 all).flatMap (linked none)) := Model.bind_eq_ok.mpr ⟨all, hall, rfl⟩
  obtain ⟨blocks, hblocks, hpieces, hlayered⟩ := passes_layered _ hpasses
  exact ⟨_, blocks, hpasses, hblocks, hpieces, hlayered⟩

end MillChain

end Toolpath
