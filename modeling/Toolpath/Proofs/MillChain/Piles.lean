import Mathlib.Data.List.Forall2
import Toolpath.MillChain
import Toolpath.Proofs.Model.Tasks
import Toolpath.Proofs.Params.Ranges

/-!
The piles of a chain. Every piece of every cut gives one pile of passes, with the settings of its
cut; numbered through the whole chain and linked, the passes of a pile stand one after the other,
each under the one before.
-/

set_option autoImplicit false

namespace Toolpath

variable {α : Type}

section Pieces

variable [Scalar α]

def Cut.pile (cut : Cut α) (top : α) (feeds : CutFeeds α) (sweepHeight : α)
    (piece : FlooredPiece α) : List (Pass α) :=
  (Cut.layers piece top (cut.settings.get? .step)).map fun layer =>
    ⟨piece.shape, layer.1, layer.2, feeds, sweepHeight, top⟩

private theorem Cut.piles_eq_ok {cut : Cut α} {piles : List (List (Pass α))}
    (h : cut.piles = .ok piles) :
    ∃ top feeds sweepHeight pieces, cut.settings.get? .top = some top ∧
      cut.settings.get? .sweepHeight = some sweepHeight ∧ cut.pieces = .ok pieces ∧
      piles = pieces.map (cut.pile top feeds sweepHeight) := by
  obtain ⟨top, htop, h⟩ := Model.bind_eq_ok.mp h
  obtain ⟨feeds, -, h⟩ := Model.bind_eq_ok.mp h
  obtain ⟨sweepHeight, hsweep, h⟩ := Model.bind_eq_ok.mp h
  obtain ⟨pieces, hpieces, h⟩ := Model.bind_eq_ok.mp h
  obtain rfl := Except.ok.inj h
  exact ⟨top, feeds, sweepHeight, pieces, Settings.get?_of_require htop,
    Settings.get?_of_require hsweep, hpieces, rfl⟩

theorem Cut.settings_of_mem_piles {cut : Cut α} {piles : List (List (Pass α))}
    (h : cut.piles = .ok piles) {pass : Pass α} (hpass : pass ∈ piles.flatten) :
    cut.settings.get? .top = some pass.top ∧
      cut.settings.get? .sweepHeight = some pass.sweepHeight := by
  obtain ⟨top, feeds, sweepHeight, pieces, htop, hsweep, -, rfl⟩ := Cut.piles_eq_ok h
  obtain ⟨pile, hpile, hmem⟩ := List.mem_flatten.mp hpass
  obtain ⟨piece, -, rfl⟩ := List.mem_map.mp hpile
  obtain ⟨layer, -, rfl⟩ := List.mem_map.mp hmem
  exact ⟨htop, hsweep⟩

theorem Cut.exists_pieces {cut : Cut α} {bottom run height : α}
    (hbottom : cut.settings.get? .bottom = some bottom) (hrun : cut.settings.get? .barRun = some run)
    (hheight : cut.settings.get? .barHeight = some height) :
    ∃ pieces, cut.pieces = .ok pieces := by
  unfold Cut.pieces Settings.require
  simp only [hbottom, hrun, hheight, bind, Except.bind, pure, Except.pure]
  split
  · exact ⟨_, rfl⟩
  · split
    · exact ⟨_, rfl⟩
    · split
      · exact ⟨_, rfl⟩
      · exact ⟨_, rfl⟩

namespace MillChain

def pieces : MillChain α → Except (EmitError α) (List (Cut α × FlooredPiece α))
  | [] => .ok []
  | cut :: rest => do
    let first ← cut.pieces
    let later ← pieces rest
    return first.map (fun piece => (cut, piece)) ++ later

/-- A pile that the settings of a cut give for a piece. -/
def IsPile (owner : Cut α × FlooredPiece α) (pile : List (Pass α)) : Prop :=
  ∃ top feeds sweepHeight, owner.1.settings.get? .top = some top ∧
    pile = owner.1.pile top feeds sweepHeight owner.2

theorem exists_pieces {chain : MillChain α} {piles : List (List (Pass α))}
    (h : chain.piles = .ok piles) :
    ∃ pieces, chain.pieces = .ok pieces ∧ List.Forall₂ IsPile pieces piles := by
  induction chain generalizing piles with
  | nil =>
    obtain rfl := Except.ok.inj h
    exact ⟨[], rfl, .nil⟩
  | cons cut chain ih =>
    obtain ⟨first, hfirst, h⟩ := Model.bind_eq_ok.mp h
    obtain ⟨later, hlater, h⟩ := Model.bind_eq_ok.mp h
    obtain rfl := Except.ok.inj h
    obtain ⟨rest, hrest, hpiles⟩ := ih hlater
    obtain ⟨top, feeds, sweepHeight, own, htop, -, hown, rfl⟩ := Cut.piles_eq_ok hfirst
    refine ⟨own.map (fun piece => (cut, piece)) ++ rest, ?_, ?_⟩
    · rw [pieces, hown, hrest]
      rfl
    · refine List.rel_append ?_ hpiles
      rw [List.forall₂_map_left_iff, List.forall₂_map_right_iff, List.forall₂_same]
      exact fun piece _ => ⟨top, feeds, sweepHeight, htop, rfl⟩

end MillChain

end Pieces

namespace MillChain

theorem map_fst_linked (above : Option Nat) (first : Nat) (pile : List (Pass α)) :
    (linked above ((pile.zipIdx first).map Prod.swap)).map Prod.fst = pile := by
  induction pile generalizing above first with
  | nil => rfl
  | cons pass pile ih =>
    rw [List.zipIdx_cons, List.map_cons, Prod.swap_prod_mk, linked, List.map_cons, ih]

theorem map_snd_linked (above : Option Nat) (first : Nat) (pile : List (Pass α)) :
    (linked above ((pile.zipIdx first).map Prod.swap)).map Prod.snd =
      (List.range pile.length).map fun i => if i = 0 then above else some (first + i - 1) := by
  induction pile generalizing above first with
  | nil => rfl
  | cons pass pile ih =>
    rw [List.zipIdx_cons, List.map_cons, Prod.swap_prod_mk, linked, List.map_cons, ih,
      List.length_cons, List.range_succ_eq_map, List.map_cons, List.map_map]
    refine List.cons_eq_cons.mpr ⟨rfl, List.map_congr_left fun i _ => ?_⟩
    cases i with
    | zero => simp
    | succ i =>
      have hindex : first + 1 + (i + 1) - 1 = first + (i + 1 + 1) - 1 := by omega
      simp [hindex]

theorem map_fst_passes (first : Nat) (piles : List (List (Pass α))) :
    ((numbered first piles).flatMap (linked none)).map Prod.fst = piles.flatten := by
  induction piles generalizing first with
  | nil => rfl
  | cons pile piles ih =>
    rw [numbered, List.flatMap_cons, List.map_append, ih, map_fst_linked, List.flatten_cons]

end MillChain

end Toolpath
