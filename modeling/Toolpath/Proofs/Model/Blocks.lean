import Mathlib.Data.List.SplitBy
import Toolpath.Proofs.Model.Issued
import Toolpath.Proofs.Model.Required
import Toolpath.Proofs.Program.Plain

/-!
The blocks of a route. Neighbouring cuts that agree on what the cuts of a chain have in common form
a block, as long as can be, and every other element is a block by itself. An emission carries an
open chain along and never looks back; what it writes is what its blocks write, one after the other,
each chain as a whole, and so in every path that is placed on the way.
-/

set_option autoImplicit false

namespace Toolpath

variable {α : Type}

section Joins

variable [Scalar α]

/-- Whether two cuts agree on all that the cuts of a chain have in common. Their floors may differ.
-/
def Cut.agrees (c d : Cut α) : Bool :=
  c.mark == d.mark && c.settings.get? .top == d.settings.get? .top &&
    c.settings.get? .step == d.settings.get? .step &&
    c.settings.get? .feedRate == d.settings.get? .feedRate

namespace Placed

variable {μ : Type}

omit [Scalar α] in
def cut? (p : Placed α μ) : Option (Cut α) :=
  match p.element.kind with
  | .cut shape mark => some ⟨shape, mark, p.settings⟩
  | _ => none

/-- Whether two elements belong to one chain if they are neighbours. -/
def joins (p q : Placed α μ) : Bool :=
  match p.cut?, q.cut? with
  | some c, some d => c.agrees d
  | _, _ => false

end Placed

section Equated

variable [EquatedScalar α]

instance partialEquivBEq_option : PartialEquivBEq (Option α) where
  symm {x y} h := by
    cases x with
    | none => cases y <;> simp_all
    | some a =>
      cases y with
      | none => simp at h
      | some b =>
        rw [Option.some_beq_some] at h ⊢
        exact EquatedScalar.beq_symm h
  trans {x y z} hxy hyz := by
    cases x with
    | none => cases y <;> simp_all
    | some a =>
      cases y with
      | none => simp at hxy
      | some b =>
        cases z with
        | none => simp at hyz
        | some c =>
          rw [Option.some_beq_some] at hxy hyz ⊢
          exact EquatedScalar.beq_trans hxy hyz

private theorem Cut.agrees_comm (c d : Cut α) : c.agrees d = d.agrees c := by
  have hvalue (f : Field) :
      (c.settings.get? f == d.settings.get? f) = (d.settings.get? f == c.settings.get? f) :=
    BEq.comm
  have hmark : (c.mark == d.mark) = (d.mark == c.mark) := BEq.comm
  rw [agrees, agrees, hmark, hvalue, hvalue, hvalue]

private theorem Cut.agrees_congr {c d : Cut α} (h : c.agrees d = true) (e : Cut α) :
    c.agrees e = d.agrees e := by
  simp only [agrees, Bool.and_eq_true] at h
  obtain ⟨⟨⟨hmark, htop⟩, hstep⟩, hfeed⟩ := h
  rw [agrees, agrees, BEq.congr_left hmark, BEq.congr_left htop, BEq.congr_left hstep,
    BEq.congr_left hfeed]

namespace Placed

variable {μ : Type} {p q r : Placed α μ}

private theorem joins_comm (p q : Placed α μ) : p.joins q = q.joins p := by
  unfold joins
  cases p.cut? <;> cases q.cut? <;> first | rfl | exact Cut.agrees_comm _ _

private theorem joins_congr (h : p.joins q = true) (r : Placed α μ) : p.joins r = q.joins r := by
  unfold joins at h ⊢
  cases hp : p.cut? with
  | none => simp [hp] at h
  | some c =>
    cases hq : q.cut? with
    | none => simp [hp, hq] at h
    | some d =>
      rw [hp, hq] at h
      cases r.cut? with
      | none => rfl
      | some e => exact Cut.agrees_congr h e

private theorem joins_trans (hpq : p.joins q = true) (hqr : q.joins r = true) : p.joins r = true :=
  (joins_congr hpq r).trans hqr

end Placed

end Equated

section Keys

omit [Scalar α] in
private theorem ChainKey.ofSettings_eq_ok {settings : Settings α} {mark : Bool} {key : ChainKey α}
    (h : ChainKey.ofSettings settings mark = .ok key) :
    key.mark = mark ∧ settings.get? .top = some key.top ∧ settings.get? .step = key.step ∧
      settings.get? .feedRate = some key.feed := by
  obtain ⟨top, htop, h⟩ := Model.bind_eq_ok.mp h
  obtain ⟨feed, hfeed, h⟩ := Model.bind_eq_ok.mp h
  obtain rfl := Except.ok.inj h
  exact ⟨rfl, Settings.get?_of_require htop, rfl, Settings.get?_of_require hfeed⟩

private theorem ChainKey.beq_eq_agrees {c d : Cut α} {k l : ChainKey α}
    (hc : ChainKey.ofSettings c.settings c.mark = .ok k)
    (hd : ChainKey.ofSettings d.settings d.mark = .ok l) : (k == l) = c.agrees d := by
  obtain ⟨hmark, htop, hstep, hfeed⟩ := ofSettings_eq_ok hc
  obtain ⟨hmark', htop', hstep', hfeed'⟩ := ofSettings_eq_ok hd
  have hfields : (k == l) =
      (k.mark == l.mark && (k.top == l.top && (k.step == l.step && k.feed == l.feed))) := by
    cases k
    cases l
    rfl
  rw [hfields, Cut.agrees, ← hmark, ← hmark', htop, htop', hstep, hstep', hfeed, hfeed',
    Option.some_beq_some, Option.some_beq_some, Bool.and_assoc, Bool.and_assoc]

private theorem MillChain.exists_key_of_mill {cuts : MillChain α} {setup : Setup α}
    {w w' : Writer α} (h : cuts.mill w setup = .ok w') :
    ∀ c ∈ cuts, ∃ key, ChainKey.ofSettings c.settings c.mark = .ok key := by
  obtain ⟨piles, hpiles, -⟩ := Model.bind_eq_ok.mp h
  clear h
  induction cuts generalizing piles with
  | nil => simp
  | cons cut cuts ih =>
    obtain ⟨first, hfirst, hpiles⟩ := Model.bind_eq_ok.mp hpiles
    obtain ⟨later, hlater, -⟩ := Model.bind_eq_ok.mp hpiles
    obtain ⟨top, htop, hfirst⟩ := Model.bind_eq_ok.mp hfirst
    obtain ⟨feeds, hfeeds, -⟩ := Model.bind_eq_ok.mp hfirst
    obtain ⟨feed, hfeed, -⟩ := Model.bind_eq_ok.mp hfeeds
    refine List.forall_mem_cons.mpr ⟨⟨⟨cut.mark, top, cut.settings.get? .step, feed⟩, ?_⟩,
      ih later hlater⟩
    rw [ChainKey.ofSettings, htop, hfeed]
    rfl

end Keys

end Joins

namespace Model

section Grouped

variable [Scalar α]

/-- The blocks of a route. -/
structure Grouped (route : List (Placed α (Model α)))
    (blocks : List (List (Placed α (Model α)))) : Prop where
  /-- Every element of the route is in one block, at its place. -/
  flatten : blocks.flatten = route
  nonempty : ∀ block ∈ blocks, block ≠ []
  /-- A block with more than one element consists of cuts that all agree. -/
  joined : ∀ block ∈ blocks, block.Pairwise fun p q => p.joins q = true
  /-- No element could as well be in the block beside its own. -/
  apart : blocks.IsChain fun block later => ∀ p ∈ block, ∀ q ∈ later, p.joins q = false

variable {route : List (Placed α (Model α))} {blocks : List (List (Placed α (Model α)))}

private theorem Grouped.eq_splitBy (h : Grouped route blocks) :
    blocks = route.splitBy Placed.joins := by
  rw [← h.flatten]
  refine (List.splitBy_flatten (fun hnil => h.nonempty [] hnil rfl)
    (fun block hblock => (h.joined block hblock).isChain) ?_).symm
  refine h.apart.imp_of_mem_imp fun block later hblock hlater hapart => ?_
  have hne := h.nonempty block hblock
  have hne' := h.nonempty later hlater
  exact ⟨hne, hne', hapart _ (List.getLast_mem hne) _ (List.head_mem hne')⟩

variable [EquatedScalar α]

instance {μ : Type} :
    Trans (fun p q : Placed α μ => p.joins q = true) (fun p q => p.joins q = true)
      (fun p q => p.joins q = true) where
  trans := Placed.joins_trans

private theorem eq_or_joins {block : List (Placed α (Model α))}
    (h : block.Pairwise fun p q => p.joins q = true) {p q : Placed α (Model α)} (hp : p ∈ block)
    (hq : q ∈ block) : p = q ∨ p.joins q = true := by
  have : Std.Symm fun p q : Placed α (Model α) => p = q ∨ p.joins q = true :=
    ⟨fun p q => Or.imp Eq.symm fun hpq => (Placed.joins_comm q p).trans hpq⟩
  have heither : block.Pairwise fun p q => p = q ∨ p.joins q = true := h.imp Or.inr
  exact List.Pairwise.forall_of_forall (R := fun p q => p = q ∨ p.joins q = true)
    (fun _ _ => Or.inl rfl) heither hp hq

private theorem grouped_splitBy (route : List (Placed α (Model α))) :
    Grouped route (route.splitBy Placed.joins) where
  flatten := List.flatten_splitBy _ _
  nonempty _ hblock := List.ne_nil_of_mem_splitBy hblock
  joined _ hblock := List.isChain_iff_pairwise.mp (List.isChain_of_mem_splitBy hblock)
  apart := by
    refine (List.isChain_getLast_head_splitBy _ _).imp_of_mem_imp
      fun block later hblock hlater hapart => ?_
    obtain ⟨hne, hne', hends⟩ := hapart
    have hjoined := List.isChain_iff_pairwise.mp (List.isChain_of_mem_splitBy hblock)
    have hjoined' := List.isChain_iff_pairwise.mp (List.isChain_of_mem_splitBy hlater)
    intro p hp q hq
    by_contra hpq
    have hpq : p.joins q = true := by simpa using hpq
    -- What joins two blocks anywhere joins them at the place where they meet.
    have hlast : (block.getLast hne).joins q = true := by
      rcases eq_or_joins hjoined (List.getLast_mem hne) hp with hsame | hjoins
      · rw [hsame]
        exact hpq
      · exact Placed.joins_trans hjoins hpq
    have hmeet : (block.getLast hne).joins (later.head hne') = true := by
      rcases eq_or_joins hjoined' hq (List.head_mem hne') with hsame | hjoins
      · rw [← hsame]
        exact hlast
      · exact Placed.joins_trans hlast hjoins
    rw [hends] at hmeet
    cases hmeet

end Grouped

section Emits

variable [Scalar α]

mutual

/-- The records that the route of a path adds, from one state of the writer to another: those of its
blocks, one after the other. -/
inductive Emits : Setup α → Model α → Writer α → List (Record α) → Writer α → Prop
  | blocks {setup : Setup α} {m : Model α} {blocks : List (List (Placed α (Model α)))}
      {w w' : Writer α} {stretches : List (List (Record α))} :
      Grouped m.elements blocks → EmitsBlocks setup blocks w stretches w' →
      Emits setup m w stretches.flatten w'

/-- The records that blocks add, one stretch for each of them. -/
inductive EmitsBlocks : Setup α → List (List (Placed α (Model α))) → Writer α →
    List (List (Record α)) → Writer α → Prop
  | nil (setup : Setup α) (w : Writer α) : EmitsBlocks setup [] w [] w
  | cons {setup : Setup α} {block : List (Placed α (Model α))}
      {blocks : List (List (Placed α (Model α)))} {w v w' : Writer α}
      {records : List (Record α)} {stretches : List (List (Record α))} :
      EmitsBlock setup block w records v → EmitsBlocks setup blocks v stretches w' →
      EmitsBlocks setup (block :: blocks) w (records :: stretches) w'

inductive EmitsBlock : Setup α → List (Placed α (Model α)) → Writer α → List (Record α) →
    Writer α → Prop
  /-- Cuts are milled together, all of them and in their order. -/
  | chain {setup : Setup α} {block : List (Placed α (Model α))} {cuts : MillChain α}
      {w w' : Writer α} {records : List (Record α)} :
      block.map Placed.cut? = cuts.map some → cuts.mill w setup = .ok w' →
      w'.records = w.records ++ records → EmitsBlock setup block w records w'
  | single {setup : Setup α} {p : Placed α (Model α)} {w w' : Writer α}
      {records : List (Record α)} :
      p.cut? = none → (∀ start stop target, p.element.kind ≠ .subPath start stop target) →
      emitSingle p.element p.settings w setup = .ok w' →
      w'.records = w.records ++ records → EmitsBlock setup [p] w records w'
  /-- A placed path is a comment and all that its own route adds. -/
  | placed {setup : Setup α} {element : Element α} {settings : Settings α} {model : Model α}
      {placement : Placement α} {start stop : Point α} {target : PathName} {w w' : Writer α}
      {records : List (Record α)} :
      element.kind = .subPath start stop target →
      Emits (setup.nested placement) model (w.comment ("sub-path " ++ model.name.text)) records w' →
      EmitsBlock setup [⟨element, settings, some (model, placement)⟩] w
        (.comment ("sub-path " ++ model.name.text) :: records) w'

end

mutual

private theorem Emits.records_eq {setup : Setup α} {m : Model α} {w w' : Writer α}
    {records : List (Record α)} : Emits setup m w records w' → w'.records = w.records ++ records
  | .blocks _ blocks => blocks.records_eq

private theorem EmitsBlocks.records_eq {setup : Setup α} {blocks : List (List (Placed α (Model α)))}
    {w w' : Writer α} {stretches : List (List (Record α))} :
    EmitsBlocks setup blocks w stretches w' → w'.records = w.records ++ stretches.flatten
  | .nil _ _ => by simp
  | .cons first later => by
    rw [later.records_eq, first.records_eq, List.flatten_cons, List.append_assoc]

private theorem EmitsBlock.records_eq {setup : Setup α} {block : List (Placed α (Model α))}
    {w w' : Writer α} {records : List (Record α)} :
    EmitsBlock setup block w records w' → w'.records = w.records ++ records
  | .chain _ _ adds => adds
  | .single _ _ _ adds => adds
  | .placed _ inner => by
    rw [inner.records_eq, Writer.comment, Writer.records_push, List.append_assoc,
      List.singleton_append]

end

section Runs

variable {setup : Setup α} {block : List (Placed α (Model α))}
  {blocks : List (List (Placed α (Model α)))} {w w' : Writer α}

private theorem exists_emitsBlocks_nil : (∃ s, EmitsBlocks setup [] w s w') ↔ w = w' := by
  constructor
  · rintro ⟨s, h⟩
    cases h
    rfl
  · rintro rfl
    exact ⟨[], .nil setup w⟩

private theorem exists_emitsBlocks_cons :
    (∃ s, EmitsBlocks setup (block :: blocks) w s w') ↔
      ∃ v, (∃ r, EmitsBlock setup block w r v) ∧ ∃ s, EmitsBlocks setup blocks v s w' := by
  constructor
  · rintro ⟨s, h⟩
    cases h with
    | cons first later => exact ⟨_, ⟨_, first⟩, _, later⟩
  · rintro ⟨v, ⟨r, first⟩, s, later⟩
    exact ⟨r :: s, .cons first later⟩

private theorem exists_emitsBlock_chain {cuts : MillChain α}
    (hcuts : block.map Placed.cut? = cuts.map some) (hne : block ≠ []) :
    (∃ r, EmitsBlock setup block w r w') ↔ cuts.mill w setup = .ok w' := by
  constructor
  · rintro ⟨r, h⟩
    cases h with
    | chain hsame hmill =>
      have heq : cuts = _ := List.map_injective_iff.mpr (Option.some_injective _)
        (hcuts.symm.trans hsame)
      rw [heq]
      exact hmill
    | @single _ p _ _ _ hcut => cases cuts <;> simp [hcut] at hcuts
    | placed hkind => cases cuts <;> simp [Placed.cut?, hkind] at hcuts
  · intro hmill
    exact ⟨_, .chain hcuts hmill (MillChain.adds_mill Writer.plain_primitives hmill).records_eq⟩

private theorem exists_emitsBlock_single {p : Placed α (Model α)} (uncut : p.cut? = none)
    (unplaced : ∀ start stop target, p.element.kind ≠ .subPath start stop target) :
    (∃ r, EmitsBlock setup [p] w r w') ↔ emitSingle p.element p.settings w setup = .ok w' := by
  constructor
  · rintro ⟨r, h⟩
    cases h with
    | @chain _ _ cuts _ _ _ hcuts => cases cuts <;> simp [uncut] at hcuts
    | single _ _ hemit => exact hemit
    | placed hkind => exact absurd hkind (unplaced _ _ _)
  · intro hemit
    exact ⟨_, .single uncut unplaced hemit
      (adds_emitSingle Writer.plain_primitives hemit).records_eq⟩

section Placed

variable {element : Element α} {settings : Settings α} {start stop : Point α} {target : PathName}
  (hkind : element.kind = .subPath start stop target)

include hkind

private theorem exists_emitsBlock_placed {model : Model α} {placement : Placement α} :
    (∃ r, EmitsBlock setup [⟨element, settings, some (model, placement)⟩] w r w') ↔
      ∃ r, Emits (setup.nested placement) model
        (w.comment ("sub-path " ++ model.name.text)) r w' := by
  constructor
  · rintro ⟨r, h⟩
    cases h with
    | @chain _ _ cuts _ _ _ hcuts => cases cuts <;> simp [Placed.cut?, hkind] at hcuts
    | single _ unplaced => exact absurd hkind (unplaced _ _ _)
    | placed _ inner => exact ⟨_, inner⟩
  · rintro ⟨r, inner⟩
    exact ⟨_, .placed hkind inner⟩

private theorem not_emitsBlock_missing {r : List (Record α)} :
    ¬ EmitsBlock setup [⟨element, settings, none⟩] w r w' := by
  intro h
  cases h with
  | @chain _ _ cuts _ _ _ hcuts => cases cuts <;> simp [Placed.cut?, hkind] at hcuts
  | single _ unplaced => exact unplaced _ _ _ hkind

end Placed

private theorem exists_emits {m : Model α} [EquatedScalar α] :
    (∃ r, Emits setup m w r w') ↔
      ∃ s, EmitsBlocks setup (m.elements.splitBy Placed.joins) w s w' := by
  constructor
  · rintro ⟨r, ⟨hgrouped, hblocks⟩⟩
    rw [← hgrouped.eq_splitBy]
    exact ⟨_, hblocks⟩
  · rintro ⟨s, hblocks⟩
    exact ⟨_, .blocks (grouped_splitBy m.elements) hblocks⟩

end Runs

private theorem EmitsBlocks.exists_key {setup : Setup α} {blocks : List (List (Placed α (Model α)))}
    {w w' : Writer α} {s : List (List (Record α))} (h : EmitsBlocks setup blocks w s w')
    {p : Placed α (Model α)} (hp : p ∈ blocks.flatten) {c : Cut α} (hcut : p.cut? = some c) :
    ∃ key, ChainKey.ofSettings c.settings c.mark = .ok key := by
  induction blocks generalizing w s with
  | nil => simp at hp
  | cons block blocks ih =>
    obtain ⟨v, ⟨r, first⟩, s', later⟩ := exists_emitsBlocks_cons.mp ⟨s, h⟩
    rw [List.flatten_cons, List.mem_append] at hp
    rcases hp with hp | hp
    · cases first with
      | chain hcuts hmill =>
        have hmem := List.mem_map_of_mem (f := Placed.cut?) hp
        rw [hcuts, hcut] at hmem
        exact MillChain.exists_key_of_mill hmill c (by simpa using hmem)
      | single uncut =>
        rw [List.mem_singleton.mp hp, uncut] at hcut
        cases hcut
      | placed hkind =>
        rw [List.mem_singleton.mp hp] at hcut
        simp [Placed.cut?, hkind] at hcut
    · exact ih later hp

section Pending

/-- What an open chain holds: the cuts of the elements since it was opened. Its key is that of the
first one, and all others agree with it. -/
inductive Pending : List (Placed α (Model α)) → OpenChain α → Prop
  | shut : Pending [] none
  | held {first : Placed α (Model α)} {others : List (Placed α (Model α))} {c : Cut α}
      {cuts : MillChain α} {key : ChainKey α} : first.cut? = some c →
      ChainKey.ofSettings c.settings c.mark = .ok key → others.map Placed.cut? = cuts.map some →
      (∀ p ∈ others, first.joins p = true) → Pending (first :: others) (some (key, c :: cuts))

namespace Pending

variable {pending : List (Placed α (Model α))} {p : Placed α (Model α)} {c : Cut α}
  {key shared : ChainKey α} {cuts : MillChain α}

private theorem start (hcut : p.cut? = some c)
    (hkey : ChainKey.ofSettings c.settings c.mark = .ok key) : Pending [p] (some (key, [c])) :=
  .held hcut hkey rfl (by simp)

variable [EquatedScalar α]

private theorem joins_eq (h : Pending pending (some (shared, cuts))) (hcut : p.cut? = some c)
    (hkey : ChainKey.ofSettings c.settings c.mark = .ok key) :
    ∀ q ∈ pending, q.joins p = (key == shared) := by
  cases h with
  | @held first others d _ _ hfirst hshared _ hjoins =>
    have hone : first.joins p = (key == shared) := by
      rw [ChainKey.beq_eq_agrees hkey hshared, Placed.joins_comm, Placed.joins, hcut, hfirst]
    intro q hq
    rcases List.mem_cons.mp hq with rfl | hq
    · exact hone
    · rw [← Placed.joins_congr (hjoins q hq), hone]

private theorem extend (h : Pending pending (some (shared, cuts))) (hcut : p.cut? = some c)
    (hkey : ChainKey.ofSettings c.settings c.mark = .ok key) (same : (key == shared) = true) :
    Pending (pending ++ [p]) (some (shared, cuts ++ [c])) := by
  have hjoins := h.joins_eq hcut hkey
  cases h with
  | held hfirst hshared hothers hjoined =>
    refine .held hfirst hshared (by simp [hothers, hcut]) fun q hq => ?_
    rcases List.mem_append.mp hq with hq | hq
    · exact hjoined q hq
    · rw [List.mem_singleton.mp hq, hjoins _ List.mem_cons_self, same]

private theorem exists_emitsBlocks {chain : OpenChain α} (h : Pending pending chain)
    {setup : Setup α} {blocks : List (List (Placed α (Model α)))} {w w' : Writer α} :
    (∃ s, EmitsBlocks setup (pending.splitBy Placed.joins ++ blocks) w s w') ↔
      ∃ v, closeChain chain w setup = .ok v ∧ ∃ s, EmitsBlocks setup blocks v s w' := by
  cases h with
  | shut => simp [closeChain]
  | @held first others c cuts key hfirst _ hothers hjoins =>
    have hblock : (first :: others).splitBy Placed.joins = [first :: others] := by
      refine List.splitBy_of_isChain (List.cons_ne_nil _ _) (List.Pairwise.isChain ?_)
      refine List.pairwise_cons.mpr ⟨hjoins, List.pairwise_of_forall_mem_list fun p hp q hq => ?_⟩
      rw [← Placed.joins_congr (hjoins p hp)]
      exact hjoins q hq
    have hcuts : (first :: others).map Placed.cut? = (c :: cuts).map some := by
      simp [hfirst, hothers]
    rw [hblock, List.singleton_append, exists_emitsBlocks_cons]
    simp only [exists_emitsBlock_chain hcuts (List.cons_ne_nil _ _)]
    rfl

private theorem exists_emitsBlocks_uncut {chain : OpenChain α} (h : Pending pending chain)
    (uncut : p.cut? = none) {setup : Setup α} {rest : List (Placed α (Model α))}
    {w w' : Writer α} :
    (∃ s, EmitsBlocks setup ((pending ++ p :: rest).splitBy Placed.joins) w s w') ↔
      ∃ v, closeChain chain w setup = .ok v ∧ ∃ v', (∃ r, EmitsBlock setup [p] v r v') ∧
        ∃ s, EmitsBlocks setup (rest.splitBy Placed.joins) v' s w' := by
  have hleft (q : Placed α (Model α)) : q.joins p = false := by
    rw [Placed.joins, uncut]
    cases q.cut? <;> rfl
  have hright (q : Placed α (Model α)) : p.joins q = false := by
    rw [Placed.joins_comm]
    exact hleft q
  have halone : (p :: rest).splitBy Placed.joins = [p] :: rest.splitBy Placed.joins := by
    have hsingle : [p].splitBy Placed.joins = [[p]] :=
      List.splitBy_of_isChain (List.cons_ne_nil p []) (.singleton p)
    rw [← List.singleton_append, List.splitBy_append (by simp [hright]), hsingle,
      List.singleton_append]
  rw [List.splitBy_append_cons rest fun q _ => hleft q, h.exists_emitsBlocks, halone]
  simp only [exists_emitsBlocks_cons]

end Pending

end Pending

section Emission

variable [EquatedScalar α]

/-- The emission of elements behind an open chain is that of the blocks of these elements together
with what the chain holds. -/
def InBlocks (setup : Setup α) (elements : List (Placed α (Model α))) : Prop :=
  ∀ {pending : List (Placed α (Model α))} {chain : OpenChain α}, Pending pending chain →
    ∀ {w w' : Writer α}, emitElements setup chain w elements = .ok w' ↔
      ∃ s, EmitsBlocks setup ((pending ++ elements).splitBy Placed.joins) w s w'

section Route

variable {setup : Setup α} {element : Element α} {settings : Settings α}
  {sub : Option (Model α × Placement α)} {rest : List (Placed α (Model α))}

private theorem inBlocks_nil : InBlocks setup [] := by
  intro pending chain h w w'
  have hclose : (∃ s, EmitsBlocks setup (pending.splitBy Placed.joins ++ []) w s w') ↔
      ∃ v, closeChain chain w setup = .ok v ∧ ∃ s, EmitsBlocks setup [] v s w' :=
    h.exists_emitsBlocks
  rw [List.append_nil] at hclose ⊢
  rw [emitElements, hclose]
  simp [exists_emitsBlocks_nil]

namespace InBlocks

variable (h : InBlocks setup rest)

include h

private theorem cut {shape : Shape α} {mark : Bool} (hkind : element.kind = .cut shape mark) :
    InBlocks setup (⟨element, settings, sub⟩ :: rest) := by
  intro pending chain held w w'
  have hcut : (⟨element, settings, sub⟩ : Placed α (Model α)).cut? =
      some ⟨shape, mark, settings⟩ := by
    simp [Placed.cut?, hkind]
  rw [emitElements]
  simp only [hkind]
  cases hkey : ChainKey.ofSettings settings mark with
  | error e =>
    -- Without its key the cut stops the emission, and no block that it is in can be milled.
    refine iff_of_false (by rintro ⟨⟩) ?_
    rintro ⟨s, hblocks⟩
    have hmem : (⟨element, settings, sub⟩ : Placed α (Model α)) ∈
        ((pending ++ ⟨element, settings, sub⟩ :: rest).splitBy Placed.joins).flatten := by
      simp [List.flatten_splitBy]
    obtain ⟨key, hok⟩ := hblocks.exists_key hmem hcut
    rw [hkey] at hok
    cases hok
  | ok key =>
    cases chain with
    | none =>
      cases held
      exact h (.start hcut hkey)
    | some shared =>
      obtain ⟨shared, cuts⟩ := shared
      dsimp only [bind, Except.bind]
      split
      · next hsame =>
        rw [h (held.extend hcut hkey hsame), List.append_assoc, List.singleton_append]
      · next hother =>
        have hjoins : ∀ q ∈ pending.getLast?, q.joins ⟨element, settings, sub⟩ = false := by
          intro q hq
          rw [held.joins_eq hcut hkey q (List.mem_of_getLast? hq)]
          simpa using hother
        rw [List.splitBy_append_cons rest hjoins, held.exists_emitsBlocks]
        exact bind_eq_ok.trans (exists_congr fun v => and_congr_right fun _ =>
          h (.start hcut hkey))

private theorem placed {start stop : Point α} {target : PathName}
    (hkind : element.kind = .subPath start stop target)
    (hsub : ∀ model placement, sub = some (model, placement) → ∀ {w w' : Writer α},
      emit (setup.nested placement) w model = .ok w' ↔
        ∃ r, Emits (setup.nested placement) model w r w') :
    InBlocks setup (⟨element, settings, sub⟩ :: rest) := by
  intro pending chain held w w'
  have uncut : (⟨element, settings, sub⟩ : Placed α (Model α)).cut? = none := by
    simp [Placed.cut?, hkind]
  rw [held.exists_emitsBlocks_uncut uncut, emitElements]
  simp only [hkind]
  refine bind_eq_ok.trans (exists_congr fun v => and_congr_right fun _ => ?_)
  cases sub with
  | none =>
    refine iff_of_false (by rintro ⟨⟩) ?_
    rintro ⟨v', ⟨r, hblock⟩, -⟩
    exact not_emitsBlock_missing hkind hblock
  | some inner =>
    obtain ⟨model, placement⟩ := inner
    refine bind_eq_ok.trans (exists_congr fun v' => and_congr ?_ (h .shut))
    rw [exists_emitsBlock_placed hkind]
    exact hsub model placement rfl

private theorem single (hcut : ∀ shape mark, element.kind ≠ .cut shape mark)
    (hsub : ∀ start stop target, element.kind ≠ .subPath start stop target) :
    InBlocks setup (⟨element, settings, sub⟩ :: rest) := by
  intro pending chain held w w'
  have uncut : (⟨element, settings, sub⟩ : Placed α (Model α)).cut? = none := by
    unfold Placed.cut?
    split
    · next hkind => exact absurd hkind (hcut _ _)
    · rfl
  rw [held.exists_emitsBlocks_uncut uncut, emitElements]
  split
  · next hkind => exact absurd hkind (hcut _ _)
  · next hkind => exact absurd hkind (hsub _ _ _)
  · refine bind_eq_ok.trans (exists_congr fun v => and_congr_right fun _ => ?_)
    refine bind_eq_ok.trans (exists_congr fun v' => and_congr ?_ (h .shut))
    exact (exists_emitsBlock_single uncut hsub).symm

end InBlocks

end Route

mutual

private theorem emit_iff : (m : Model α) → {setup : Setup α} → {w w' : Writer α} →
    (emit setup w m = .ok w' ↔ ∃ r, Emits setup m w r w')
  | ⟨name, settings, start, stop, elements, probes⟩, setup, w, w' => by
    rw [emit, exists_emits]
    exact inBlocks elements .shut

private theorem inBlocks : (elements : List (Placed α (Model α))) → {setup : Setup α} →
    InBlocks setup elements
  | [], _ => inBlocks_nil
  | ⟨element, settings, sub⟩ :: rest, setup => by
    have hrest : InBlocks setup rest := inBlocks rest
    cases hkind : element.kind with
    | cut shape mark => exact hrest.cut hkind
    | subPath start stop target =>
      refine hrest.placed hkind ?_
      rintro model placement rfl
      exact emit_iff model
    | _ => exact hrest.single (by simp [hkind]) (by simp [hkind])

end

/-- What an emission writes is what the blocks of the route write, in the order of the route: one
chain for every longest run of neighbouring cuts that agree, and every other element by itself,
where a placed path writes what the blocks of its own route write. -/
theorem emit_in_blocks (m : Model α) (setup : Setup α) (w w' : Writer α) :
    m.emit setup w = .ok w' ↔
      ∃ records, Emits setup m w records w' ∧ w'.records = w.records ++ records := by
  rw [emit_iff m]
  constructor
  · rintro ⟨records, h⟩
    exact ⟨records, h, h.records_eq⟩
  · rintro ⟨records, h, -⟩
    exact ⟨records, h⟩

end Emission

section Strip

def stripCut (x bottom feed : Float) : Placed Float (Model Float) where
  element := ⟨.cut (.line ⟨⟨x, 0.0⟩, ⟨x + 1.0, 0.0⟩⟩) false, none, ∅⟩
  settings := (Settings.ofDefaults .standard).push
    ((((Overlay.empty .path .nowhere).set .top 0.0).set .bottom bottom).set .feedRate feed)
  sub := none

def stripEnd : Model Float where
  name := .ofText "End"
  settings := .ofDefaults .standard
  start := ⟨0.0, 0.0⟩
  stop := ⟨2.0, 0.0⟩
  elements := [stripCut 0.0 (-1.0) 600.0, stripCut 1.0 (-2.0) 600.0]
  probes := []

def stripPlaced : Placed Float (Model Float) where
  element := ⟨.subPath ⟨3.0, 0.0⟩ ⟨5.0, 0.0⟩ (.ofText "End"), none, ∅⟩
  settings := .ofDefaults .standard
  sub := some (stripEnd, .identity)

def strip : Model Float where
  name := .ofText "Strip"
  settings := .ofDefaults .standard
  start := ⟨0.0, 0.0⟩
  stop := ⟨5.0, 0.0⟩
  elements := [stripCut 0.0 (-1.0) 600.0, stripCut 1.0 (-2.0) 600.0, stripCut 2.0 (-1.0) 300.0,
    stripPlaced]
  probes := []

def Provided (p : Placed Float (Model Float)) : Prop :=
  p.Equipped ∧ ∀ f ∈ p.needed, (p.settings.get? f).isSome = true

private theorem provided_strip : ∀ p, strip.HasElement p → Provided p := by
  have hdefaults : (Settings.ofDefaults (.standard : Defaults Float)).Equipped :=
    Settings.equipped_ofDefaults .standard
  have hcut (x bottom feed : Float) : Provided (stripCut x bottom feed) := by
    refine ⟨⟨hdefaults.push _, by simp [stripCut, Build.Target]⟩, fun f hf => ?_⟩
    have hneeded : (stripCut x bottom feed).needed = [.top, .bottom] := rfl
    rw [hneeded, List.mem_pair] at hf
    rcases hf with rfl | rfl <;> rfl
  have hplaced : Provided stripPlaced :=
    ⟨⟨hdefaults, by simp [stripPlaced, Build.Target]⟩, by simp [stripPlaced, Placed.needed]⟩
  have hflat (x bottom feed : Float) : (stripCut x bottom feed).sub = none := rfl
  have hend : ∀ p, stripEnd.HasElement p → Provided p :=
    forall_hasElement (by simp [stripEnd, hcut, hflat])
  have hinner : ∀ sub t, stripPlaced.sub = some (sub, t) → ∀ p, sub.HasElement p → Provided p := by
    intro sub t hsub
    obtain ⟨rfl, -⟩ := Prod.mk.inj (Option.some.inj hsub)
    exact hend
  exact forall_hasElement (by simpa [strip, hcut, hflat, hplaced] using hinner)

theorem emit_in_blocks_strip :
    (∀ blocks, Grouped strip.elements blocks → blocks.map List.length = [2, 1, 1]) ∧
    ∃ w' records, strip.emit ⟨.identity, []⟩ (.start ⟨0.0, 0.0, 10.0⟩) = .ok w' ∧
      Emits ⟨.identity, []⟩ strip (.start ⟨0.0, 0.0, 10.0⟩) records w' ∧
      w'.records = (Writer.start ⟨0.0, 0.0, (10.0 : Float)⟩).records ++ records := by
  have hgroups : (strip.elements.splitBy Placed.joins).map List.length = [2, 1, 1] := by
    decide +kernel
  refine ⟨fun blocks hblocks => hblocks.eq_splitBy ▸ hgroups, ?_⟩
  have hneeds := needs_emit strip (fun p hp => (provided_strip p hp).1) ⟨.identity, []⟩
    (.start ⟨0.0, 0.0, 10.0⟩)
  cases hemit : strip.emit ⟨.identity, []⟩ (.start ⟨0.0, 0.0, 10.0⟩) with
  | error e =>
    obtain ⟨_, f, ⟨p, hp, rfl, hf⟩, hunset, -⟩ := hneeds.of_error e hemit
    have hset := (provided_strip p hp).2 f hf
    simp [hunset] at hset
  | ok w' =>
    obtain ⟨records, hrecords⟩ := (emit_in_blocks strip _ _ w').mp hemit
    exact ⟨w', records, rfl, hrecords⟩

end Strip

end Emits

end Model

end Toolpath
