import Mathlib.Data.List.Perm.Basic
import Toolpath.Proofs.MillChain.Passes
import Toolpath.Proofs.Scalar.Order
import Toolpath.Proofs.Selection

/-!
The tour of a mill over the passes of a chain. It cuts every pass exactly once, from one end to the
other, a pass only after the one above it, and each time the one with an end nearest to the head
among all that can be cut. The invariant ties the piles that are left to the passes that are cut:
the uppermost pass of a pile is one whose pass above is cut, and every pass is either cut or in a
pile.
-/

set_option autoImplicit false

namespace Toolpath.MillChain

variable {α : Type}

section Passes

variable [Scalar α]

def Choice.place (setup : Setup α) (c : Choice α) : Head α :=
  if c.reversed then c.pass.endHead setup else c.pass.startHead setup

def cutAll (setup : Setup α) (w : Writer α) (choices : List (Choice α)) : Writer α :=
  choices.foldl (fun w c => cutPass w setup c) w

omit [Scalar α] in
/-- A pass that can be cut next: it is not cut yet, and the pass above it is. -/
def Ready (passes : List (Pass α × Option Nat)) (cut : List Nat) (i : Nat) (pass : Pass α) : Prop :=
  i ∉ cut ∧ ∃ above, passes[i]? = some (pass, above) ∧ ∀ a, above = some a → a ∈ cut

/-- The choice is as near as both ends of every pass that can be cut, if all these distances are
numbers. -/
def Nearest (passes : List (Pass α × Option Nat)) (setup : Setup α) (cut : List Nat)
    (head : Head α) (c : Choice α) : Prop :=
  (∀ i pass, Ready passes cut i pass →
    Scalar.isNaN (head.distance (pass.startHead setup)) = false ∧
      Scalar.isNaN (head.distance (pass.endHead setup)) = false) →
  ∀ i pass, Ready passes cut i pass →
    head.distance (c.place setup) ≤ head.distance (pass.startHead setup) ∧
      head.distance (c.place setup) ≤ head.distance (pass.endHead setup)

/-- Every choice of a tour is a pass that can be cut when it is made, and a nearest one. -/
def Greedy (passes : List (Pass α × Option Nat)) (setup : Setup α) :
    List Nat → Writer α → List (Choice α) → Prop
  | _, _, [] => True
  | cut, w, c :: rest =>
    Ready passes cut c.index c.pass ∧ Nearest passes setup cut w.head c ∧
      Greedy passes setup (c.index :: cut) (cutPass w setup c) rest

end Passes

section Piles

/-- A pile as it hangs under the pass `above`: each of its passes is linked to the one before. -/
def Hangs (passes : List (Pass α × Option Nat)) : Option Nat → List (Nat × Pass α) → Prop
  | _, [] => True
  | above, (i, pass) :: rest => passes[i]? = some (pass, above) ∧ Hangs passes (some i) rest

/-- The piles that are left when some passes are cut. -/
structure Piled (passes : List (Pass α × Option Nat)) (cut : List Nat)
    (piles : List (List (Nat × Pass α))) : Prop where
  hangs : ∀ pile ∈ piles, ∃ above, (∀ a, above = some a → a ∈ cut) ∧ Hangs passes above pile
  covers : (cut ++ piles.flatten.map Prod.fst).Perm (List.range passes.length)

variable {passes : List (Pass α × Option Nat)}

private theorem Hangs.link {above : Option Nat} {pile : List (Nat × Pass α)}
    (h : Hangs passes above pile) {i : Nat} (hi : i ∈ pile.map Prod.fst) :
    (∃ pass rest, pile = (i, pass) :: rest ∧ passes[i]? = some (pass, above)) ∨
      ∃ pass j, passes[i]? = some (pass, some j) ∧ j ∈ pile.map Prod.fst := by
  induction pile generalizing above with
  | nil => simp at hi
  | cons head rest ih =>
    obtain ⟨k, first⟩ := head
    obtain ⟨hfirst, hrest⟩ := h
    rw [List.map_cons, List.mem_cons] at hi
    rcases hi with rfl | hi
    · exact Or.inl ⟨first, rest, rfl, hfirst⟩
    · rcases ih hrest hi with ⟨pass, later, rfl, hpass⟩ | ⟨pass, j, hpass, hj⟩
      · exact Or.inr ⟨pass, k, hpass, by simp⟩
      · exact Or.inr ⟨pass, j, hpass, List.mem_cons_of_mem _ hj⟩

private theorem Piled.nodup {cut : List Nat} {piles : List (List (Nat × Pass α))}
    (h : Piled passes cut piles) : (cut ++ piles.flatten.map Prod.fst).Nodup :=
  h.covers.nodup_iff.mpr List.nodup_range

private theorem Piled.exists_pile {cut : List Nat} {piles : List (List (Nat × Pass α))}
    (h : Piled passes cut piles) {i : Nat} {pass : Pass α} (hready : Ready passes cut i pass) :
    ∃ (s : Nat) (rest : List (Nat × Pass α)), piles[s]? = some ((i, pass) :: rest) := by
  obtain ⟨hnot, above, hget, habove⟩ := hready
  have hlt : i < passes.length := (List.getElem?_eq_some_iff.mp hget).1
  have hmem : i ∈ cut ++ piles.flatten.map Prod.fst :=
    h.covers.mem_iff.mpr (List.mem_range.mpr hlt)
  have hleft : i ∈ piles.flatten.map Prod.fst := (List.mem_append.mp hmem).resolve_left hnot
  obtain ⟨⟨_, p⟩, hflat, rfl⟩ := List.mem_map.mp hleft
  obtain ⟨pile, hpile, hin⟩ := List.mem_flatten.mp hflat
  obtain ⟨_, -, hangs⟩ := h.hangs pile hpile
  rcases hangs.link (List.mem_map_of_mem hin) with ⟨q, rest, rfl, hq⟩ | ⟨q, j, hq, hj⟩
  · obtain ⟨s, hs⟩ := List.getElem?_of_mem hpile
    have hsame : q = pass := (Prod.mk.inj (Option.some.inj (hq.symm.trans hget))).1
    exact ⟨s, rest, hsame ▸ hs⟩
  · -- The pass above is cut, so it cannot be in the pile.
    have hlink : above = some j := (Prod.mk.inj (Option.some.inj (hget.symm.trans hq))).2
    have hcut : j ∈ cut := habove j hlink
    obtain ⟨x, hx, rfl⟩ := List.mem_map.mp hj
    have hflat' : x.1 ∈ piles.flatten.map Prod.fst :=
      List.mem_map_of_mem (List.mem_flatten.mpr ⟨pile, hpile, hx⟩)
    exact absurd rfl ((List.nodup_append.mp h.nodup).2.2 x.1 hcut x.1 hflat')

private theorem Piled.ready {cut : List Nat} {piles : List (List (Nat × Pass α))}
    (h : Piled passes cut piles) {s i : Nat} {pass : Pass α} {rest : List (Nat × Pass α)}
    (hs : piles[s]? = some ((i, pass) :: rest)) : Ready passes cut i pass := by
  have hpile := List.mem_of_getElem? hs
  obtain ⟨above, habove, hget, -⟩ := h.hangs _ hpile
  have hflat : i ∈ piles.flatten.map Prod.fst :=
    List.mem_map.mpr ⟨(i, pass), List.mem_flatten.mpr ⟨_, hpile, by simp⟩, rfl⟩
  refine ⟨?_, above, hget, habove⟩
  intro hcut
  exact (List.nodup_append.mp h.nodup).2.2 i hcut i hflat rfl

private theorem flatten_modify_tail {piles : List (List (Nat × Pass α))} {s : Nat}
    {top : Nat × Pass α} {rest : List (Nat × Pass α)} (hs : piles[s]? = some (top :: rest)) :
    (top :: (piles.modify s List.tail).flatten).Perm piles.flatten := by
  induction piles generalizing s with
  | nil => simp at hs
  | cons pile piles ih =>
    cases s with
    | zero =>
      obtain rfl : pile = top :: rest := by simpa using hs
      simp
    | succ s =>
      have htail := ih (s := s) (by simpa using hs)
      simp only [List.modify_succ_cons, List.flatten_cons]
      exact List.perm_middle.symm.trans (htail.append_left pile)

private theorem Piled.cut {cut : List Nat} {piles : List (List (Nat × Pass α))}
    (h : Piled passes cut piles) {s i : Nat} {pass : Pass α} {rest : List (Nat × Pass α)}
    (hs : piles[s]? = some ((i, pass) :: rest)) :
    Piled passes (i :: cut) (piles.modify s List.tail) where
  hangs pile hpile := by
    obtain ⟨k, hk⟩ := List.getElem?_of_mem hpile
    rw [List.getElem?_modify] at hk
    by_cases hks : s = k
    · subst hks
      rw [hs] at hk
      obtain rfl : rest = pile := by simpa using hk
      obtain ⟨above, -, -, hrest⟩ := h.hangs _ (List.mem_of_getElem? hs)
      refine ⟨some i, ?_, hrest⟩
      rintro a ⟨⟩
      simp
    · have hold : piles[k]? = some pile := by simpa [hks] using hk
      obtain ⟨above, habove, hangs⟩ := h.hangs pile (List.mem_of_getElem? hold)
      exact ⟨above, fun a ha => List.mem_cons_of_mem i (habove a ha), hangs⟩
  covers := by
    have hflat := (flatten_modify_tail hs).map Prod.fst
    rw [List.map_cons] at hflat
    rw [List.cons_append]
    exact (List.perm_middle.symm.trans (hflat.append_left cut)).trans h.covers

end Piles

section Numbers

theorem flatten_numbered (first : Nat) (piles : List (List (Pass α))) :
    (numbered first piles).flatten.map Prod.fst = List.range' first piles.flatten.length := by
  induction piles generalizing first with
  | nil => rfl
  | cons pile piles ih =>
    simp only [numbered, List.flatten_cons, List.map_append, ih, List.map_map, List.length_append]
    rw [List.range'_append_1.symm]
    congr 1
    rw [← List.zipIdx_map_snd first pile]
    rfl

theorem length_flatten_numbered (first : Nat) (piles : List (List (Pass α))) :
    (numbered first piles).flatten.length = piles.flatten.length := by
  rw [← List.length_map (f := Prod.fst), flatten_numbered, List.length_range']

private theorem length_linked (above : Option Nat) (pile : List (Nat × Pass α)) :
    (linked above pile).length = pile.length := by
  induction pile generalizing above with
  | nil => rfl
  | cons top rest ih => rw [linked, List.length_cons, List.length_cons, ih]

private theorem length_flatMap_linked (piles : List (List (Nat × Pass α))) :
    (piles.flatMap (linked none)).length = piles.flatten.length := by
  induction piles with
  | nil => rfl
  | cons pile piles ih =>
    rw [List.flatMap_cons, List.flatten_cons, List.length_append, List.length_append, ih,
      length_linked]

private theorem hangs_linked {before : List (Pass α × Option Nat)} {first : Nat}
    (hfirst : before.length = first) (above : Option Nat) (pile : List (Pass α))
    (after : List (Pass α × Option Nat)) :
    Hangs (before ++ linked above ((pile.zipIdx first).map Prod.swap) ++ after) above
      ((pile.zipIdx first).map Prod.swap) := by
  induction pile generalizing before first above with
  | nil => trivial
  | cons pass rest ih =>
    have hnext : (before ++ [(pass, above)]).length = first + 1 := by simp [hfirst]
    have hrest := ih hnext (some first)
    simp only [List.zipIdx_cons, List.map_cons, Prod.swap_prod_mk, linked]
    constructor
    · simp [← hfirst]
    · simpa using hrest

private theorem hangs_numbered {before : List (Pass α × Option Nat)} {first : Nat}
    (hfirst : before.length = first) (piles : List (List (Pass α))) :
    ∀ pile ∈ numbered first piles,
      Hangs (before ++ (numbered first piles).flatMap (linked none)) none pile := by
  induction piles generalizing before first with
  | nil => simp [numbered]
  | cons pile piles ih =>
    intro q hq
    rw [numbered, List.mem_cons] at hq
    rw [numbered, List.flatMap_cons, ← List.append_assoc]
    rcases hq with rfl | hq
    · exact hangs_linked hfirst none pile _
    · refine ih ?_ q hq
      simp [length_linked, hfirst]

theorem piled_numbered (piles : List (List (Pass α))) :
    Piled ((numbered 0 piles).flatMap (linked none)) [] (numbered 0 piles) where
  hangs pile hpile := by
    have hlinked := hangs_numbered (List.length_nil (α := Pass α × Option Nat)) piles pile hpile
    exact ⟨none, by simp, by simpa using hlinked⟩
  covers := by
    rw [List.nil_append, flatten_numbered, length_flatMap_linked, length_flatten_numbered,
      List.range_eq_range']

end Numbers

section Tour

variable [Scalar α] {passes : List (Pass α × Option Nat)} {setup : Setup α}

private theorem mem_choices {head : Head α} {piles : List (List (Nat × Pass α))} {c : Choice α} :
    c ∈ choices setup head piles ↔
      ∃ rest, piles[c.pile]? = some ((c.index, c.pass) :: rest) ∧
        c.distance = head.distance (c.place setup) := by
  simp only [choices, List.mem_flatMap, Prod.exists, List.mem_zipIdx_iff_getElem?]
  constructor
  · rintro ⟨pile, s, hs, hc⟩
    cases pile with
    | nil => simp at hc
    | cons top rest =>
      obtain ⟨i, pass⟩ := top
      simp only [List.mem_cons, List.not_mem_nil, or_false] at hc
      rcases hc with rfl | rfl
      · exact ⟨rest, hs, rfl⟩
      · exact ⟨rest, hs, rfl⟩
  · rintro ⟨rest, hs, hdist⟩
    refine ⟨_, c.pile, hs, ?_⟩
    obtain ⟨s, i, pass, reversed, distance⟩ := c
    cases reversed with
    | false =>
      obtain rfl : distance = head.distance (pass.startHead setup) := hdist
      exact List.mem_cons_self
    | true =>
      obtain rfl : distance = head.distance (pass.endHead setup) := hdist
      exact List.mem_cons_of_mem _ List.mem_cons_self

private theorem selects_nearer : Selects (nearer (α := α)) where
  first _ := rfl
  later b x := by
    simp only [nearer]
    split
    · exact Or.inl rfl
    · exact Or.inr rfl

private theorem le_of_nearer [OrderedScalar α] {b x c : Choice α} (hb : b.distance ≤ b.distance)
    (hx : x.distance ≤ x.distance) (h : nearer (some b) x = some c) :
    c.distance ≤ b.distance ∧ c.distance ≤ x.distance := by
  simp only [nearer] at h
  split at h
  · next hlt =>
    obtain rfl := Option.some.inj h
    exact ⟨OrderedScalar.le_of_lt hlt, hx⟩
  · next hnot =>
    obtain rfl := Option.some.inj h
    exact ⟨hb, OrderedScalar.le_of_not_lt hx hb hnot⟩

private theorem flatten_eq_nil_of_choices {head : Head α} {piles : List (List (Nat × Pass α))}
    (h : choices setup head piles = []) : piles.flatten = [] := by
  rw [List.flatten_eq_nil_iff]
  intro pile hpile
  obtain ⟨s, hs⟩ := List.getElem?_of_mem hpile
  cases pile with
  | nil => rfl
  | cons top rest =>
    have hmem : (⟨s, top.1, top.2, false, head.distance (top.2.startHead setup)⟩ : Choice α) ∈
        choices setup head piles := mem_choices.mpr ⟨rest, hs, rfl⟩
    rw [h] at hmem
    simp at hmem

private theorem Piled.nearest [OrderedScalar α] {cut : List Nat}
    {piles : List (List (Nat × Pass α))} (h : Piled passes cut piles) {head : Head α} {c : Choice α}
    (hc : (choices setup head piles).foldl nearer none = some c) :
    Nearest passes setup cut head c := by
  intro numbers
  have number : ∀ d ∈ choices setup head piles, d.distance ≤ d.distance := by
    intro d hd
    obtain ⟨rest, hs, hdist⟩ := mem_choices.mp hd
    obtain ⟨hstart, hstop⟩ := numbers d.index d.pass (h.ready hs)
    rw [hdist, Choice.place]
    split
    · simpa [Scalar.isNaN] using hstop
    · simpa [Scalar.isNaN] using hstart
  have least : ∀ d ∈ choices setup head piles, c.distance ≤ d.distance := by
    refine selects_nearer.foldl_least (fun d e => d.distance ≤ e.distance) number ?_ ?_ hc
    · intro d _ e _ f _ hde hef
      exact OrderedScalar.le_trans _ _ _ hde hef
    · intro d hd e he f hf
      exact le_of_nearer (number d hd) (number e he) hf
  have hplace := (mem_choices.mp (selects_nearer.mem_of_foldl hc)).choose_spec.2
  intro i pass hready
  obtain ⟨s, rest, hs⟩ := h.exists_pile hready
  have hstart := least ⟨s, i, pass, false, head.distance (pass.startHead setup)⟩
    (mem_choices.mpr ⟨rest, hs, rfl⟩)
  have hstop := least ⟨s, i, pass, true, head.distance (pass.endHead setup)⟩
    (mem_choices.mpr ⟨rest, hs, rfl⟩)
  rw [← hplace]
  exact ⟨hstart, hstop⟩

/-- A tour with enough steps over the piles that are left. -/
theorem Piled.tour [OrderedScalar α] {steps : Nat} {cut : List Nat}
    {piles : List (List (Nat × Pass α))} (h : Piled passes cut piles) (setup : Setup α)
    (hsteps : piles.flatten.length ≤ steps) (w : Writer α) :
    (tour setup steps piles w).2 = cutAll setup w (tour setup steps piles w).1 ∧
      ((tour setup steps piles w).1.map Choice.index).Perm (piles.flatten.map Prod.fst) ∧
      Greedy passes setup cut w (tour setup steps piles w).1 := by
  -- Every step takes one pass off the piles, so the tour ends only when they are empty.
  induction steps generalizing cut piles w with
  | zero =>
    have hnil : piles.flatten = [] := List.length_eq_zero_iff.mp (by omega)
    rw [hnil]
    exact ⟨rfl, .refl _, trivial⟩
  | succ steps ih =>
    cases hselect : (choices setup w.head piles).foldl nearer none with
    | none =>
      have hnil := flatten_eq_nil_of_choices ((selects_nearer.foldl_eq_none_iff _).mp hselect)
      have hend : MillChain.tour setup (steps + 1) piles w = ([], w) := by
        rw [MillChain.tour, hselect]
      rw [hend, hnil]
      exact ⟨rfl, .refl _, trivial⟩
    | some c =>
      obtain ⟨rest, hs, -⟩ := mem_choices.mp (selects_nearer.mem_of_foldl hselect)
      have hperm := (flatten_modify_tail hs).map Prod.fst
      have hlength : (piles.modify c.pile List.tail).flatten.length ≤ steps := by
        have := (flatten_modify_tail hs).length_eq
        rw [List.length_cons] at this
        omega
      obtain ⟨hwriter, hindices, hgreedy⟩ := ih (h.cut hs) hlength (cutPass w setup c)
      have hnext : MillChain.tour setup (steps + 1) piles w =
          (c :: (MillChain.tour setup steps (piles.modify c.pile List.tail)
            (cutPass w setup c)).1,
            (MillChain.tour setup steps (piles.modify c.pile List.tail)
              (cutPass w setup c)).2) := by
        rw [MillChain.tour, hselect]
      rw [hnext]
      refine ⟨hwriter, ?_, h.ready hs, h.nearest hselect, hgreedy⟩
      exact (hindices.cons c.index).trans hperm

private theorem mills_cutAll (earlier : List (Choice α)) (c : Choice α) (w : Writer α) :
    Mills setup (c.pass.directed c.reversed) (cutAll setup w earlier)
      (cutAll setup w (earlier ++ [c])) := by
  rw [cutAll, cutAll, List.foldl_concat]
  exact mills_cutPass _ setup c

/-- The tour of a mill. If the passes of a chain can be made, milling is a tour of choices and the
way to the end of the chain; the tour cuts every pass exactly once, each after the pass above it,
and goes on each time with an end that is nearest to the head among all passes that can be cut. For
every choice its pass is cut from the chosen end to the other one, and on the way to the end of the
chain nothing is cut. -/
theorem mill_tour [OrderedScalar α] (chain : MillChain α) (w : Writer α) (setup : Setup α)
    {passes : List (Pass α × Option Nat)} (h : chain.passes = .ok passes) :
    ∃ choices : List (Choice α),
      chain.mill w setup = chain.finish (cutAll setup w choices) setup ∧
      (choices.map Choice.index).Perm (List.range passes.length) ∧
      Greedy passes setup [] w choices ∧
      (∀ earlier c later, choices = earlier ++ c :: later →
        Mills setup (c.pass.directed c.reversed) (cutAll setup w earlier)
          (cutAll setup w (earlier ++ [c]))) ∧
      ∀ w', chain.mill w setup = .ok w' → Writer.Adds Idle (cutAll setup w choices) w' := by
  cases hpiles : chain.piles with
  | error e =>
    simp [MillChain.passes, hpiles, bind, Except.bind] at h
  | ok piles =>
    have hpasses : (numbered 0 piles).flatMap (linked none) = passes := by
      simpa [MillChain.passes, hpiles, bind, Except.bind, pure, Except.pure] using h
    have hlength := Nat.le_of_eq (length_flatten_numbered 0 piles)
    have hpiled := piled_numbered piles
    rw [hpasses] at hpiled
    obtain ⟨hwriter, hindices, hgreedy⟩ := hpiled.tour setup hlength w
    have hmill : chain.mill w setup =
        chain.finish (cutAll setup w (fullTour setup piles w).1) setup := by
      rw [fullTour, ← hwriter]
      simp [mill, hpiles, bind, Except.bind, fullTour]
    refine ⟨_, hmill, hindices.trans (by simpa using hpiled.covers), hgreedy, ?_, ?_⟩
    · exact fun earlier c _ _ => mills_cutAll earlier c w
    · intro w' hw'
      exact idle_finish (hmill.symm.trans hw')

end Tour

def corner : MillChain Float :=
  let settings := (Settings.ofDefaults .standard).push
    ((((Overlay.empty .path .nowhere).set .top 0.0).set .bottom (-2.0)).set .step 1.0)
  [⟨.line ⟨⟨0.0, 0.0⟩, ⟨5.0, 0.0⟩⟩, false, settings⟩,
   ⟨.line ⟨⟨5.0, 0.0⟩, ⟨5.0, 3.0⟩⟩, false, settings⟩]

/-- The passes at the corner: the lower one of each cut is linked to its upper one. -/
def cornerPasses : List (Pass Float × Option Nat) :=
  let first : Shape Float := .line ⟨⟨0.0, 0.0⟩, ⟨5.0, 0.0⟩⟩
  let second : Shape Float := .line ⟨⟨5.0, 0.0⟩, ⟨5.0, 3.0⟩⟩
  [(⟨first, -1.0, -1.0, ⟨600.0, 600.0⟩, 10.0, 0.0⟩, none),
   (⟨first, -2.0, -2.0, ⟨600.0, 600.0⟩, 10.0, 0.0⟩, some 0),
   (⟨second, -1.0, -1.0, ⟨600.0, 600.0⟩, 10.0, 0.0⟩, none),
   (⟨second, -2.0, -2.0, ⟨600.0, 600.0⟩, 10.0, 0.0⟩, some 2)]

/-- The tour of a corner, from above its first point. -/
theorem mill_tour_corner :
    let w : Writer Float := .start ⟨0.0, 0.0, 10.0⟩
    corner.passes = .ok cornerPasses ∧
    ∃ (choices : List (Choice Float)) (w' : Writer Float), choices.length = 4 ∧
      corner.mill w .identity = .ok w' ∧
      corner.mill w .identity = corner.finish (cutAll .identity w choices) .identity ∧
      (choices.map Choice.index).Perm (List.range 4) ∧
      Greedy cornerPasses .identity [] w choices ∧
      (∀ earlier c later, choices = earlier ++ c :: later →
        Mills .identity (c.pass.directed c.reversed) (cutAll .identity w earlier)
          (cutAll .identity w (earlier ++ [c]))) ∧
      Writer.Adds Idle (cutAll .identity w choices) w' := by
  intro w
  have hpasses : corner.passes = .ok cornerPasses := by rfl
  have hfinish (v : Writer Float) : ∃ w', corner.finish v .identity = .ok w' := by
    unfold finish
    dsimp only [corner, List.getLast?]
    split
    · exact ⟨v, rfl⟩
    · exact ⟨_, rfl⟩
  obtain ⟨choices, hmill, hindices, hgreedy, hmills, hidle⟩ :=
    mill_tour corner w .identity hpasses
  obtain ⟨w', hw'⟩ := hfinish (cutAll .identity w choices)
  have hlength : choices.length = 4 := by simpa [cornerPasses] using hindices.length_eq
  exact ⟨hpasses, choices, w', hlength, hmill.trans hw', hmill, hindices, hgreedy, hmills,
    hidle w' (hmill.trans hw')⟩

end Toolpath.MillChain
