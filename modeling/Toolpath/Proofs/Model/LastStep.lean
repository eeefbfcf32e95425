import Toolpath.Proofs.Model.Sources
import Toolpath.Proofs.Program.Places

/-!
How the moves of a path end. Whatever was emitted before, the last thing that is done is done for
the last element of the route: its chain is milled, the path that it places is emitted, or it is
emitted by itself. An element that is emitted by itself leaves the head over its end.
-/

set_option autoImplicit false

namespace Toolpath.Model

section Depth

variable {α : Type}

mutual

/-- How deep paths are placed inside each other below a path. -/
def depth : Model α → Nat
  | ⟨_, _, _, _, elements, _⟩ => placedDepth elements

def placedDepth : List (Placed α (Model α)) → Nat
  | [] => 0
  | ⟨_, _, none⟩ :: rest => placedDepth rest
  | ⟨_, _, some (model, _)⟩ :: rest => max (depth model + 1) (placedDepth rest)

end

theorem depth_eq (m : Model α) : m.depth = placedDepth m.elements := by
  cases m
  rw [depth]

private theorem depth_lt_of_mem {elements : List (Placed α (Model α))} {p : Placed α (Model α)}
    (hp : p ∈ elements) {sub : Model α} {t : Placement α} (places : p.sub = some (sub, t)) :
    sub.depth < placedDepth elements := by
  induction elements with
  | nil => cases hp
  | cons q rest ih =>
    obtain ⟨element, settings, placed⟩ := q
    rcases List.mem_cons.mp hp with rfl | hrest
    · obtain rfl : placed = some (sub, t) := places
      rw [placedDepth]
      omega
    · have hlt := ih hrest
      cases placed with
      | none =>
        rw [placedDepth]
        exact hlt
      | some placed =>
        obtain ⟨model, placement⟩ := placed
        rw [placedDepth]
        omega

theorem depth_lt {m : Model α} {p : Placed α (Model α)} (element : p ∈ m.elements) {sub : Model α}
    {t : Placement α} (places : p.sub = some (sub, t)) : sub.depth < m.depth := by
  rw [m.depth_eq]
  exact depth_lt_of_mem element places

/-- Every path that is placed in a model, at any depth, has an element on its route. -/
def Filled (m : Model α) : Prop :=
  ∀ p, m.HasElement p → ∀ sub t, p.sub = some (sub, t) → sub.elements ≠ []

theorem Filled.placed {m : Model α} (h : m.Filled) {p : Placed α (Model α)}
    (element : p ∈ m.elements) {sub : Model α} {t : Placement α} (places : p.sub = some (sub, t)) :
    sub.elements ≠ [] ∧ sub.Filled :=
  ⟨h p (hasElement_iff.mpr (.inl element)) sub t places,
    fun _ hq => h _ (hq.placed element places)⟩

end Depth

section LastStep

variable {α : Type} [Scalar α]

/-- What a program ends with after an element. -/
inductive LastStep (setup : Setup α) (w' : Writer α) (p : Placed α (Model α)) : Prop
  | cut {shape : Shape α} {mark : Bool} {cuts : MillChain α} {w : Writer α}
    (kind : p.element.kind = .cut shape mark) (ends : cuts.stop = some shape.stop)
    (mills : cuts.mill w setup = .ok w')
  | placed {start stop : Point α} {target : PathName} {sub : Model α} {t : Placement α}
    {w : Writer α} (kind : p.element.kind = .subPath start stop target)
    (places : p.sub = some (sub, t)) (emits : sub.emit (setup.nested t) w = .ok w')
  | single {w : Writer α} (notCut : ∀ shape mark, p.element.kind ≠ .cut shape mark)
    (notPlaced : ∀ start stop target, p.element.kind ≠ .subPath start stop target)
    (emits : emitSingle p.element p.settings w setup = .ok w')

variable {setup : Setup α} {w' : Writer α}

private theorem LastStep.of_rest {p q : Placed α (Model α)} {rest : List (Placed α (Model α))}
    {chain : OpenChain α} {w : Writer α} (h : emitElements setup chain w rest = .ok w')
    (last : (p :: rest).getLast? = some q)
    (here : closeChain chain w setup = .ok w' → LastStep setup w' p)
    (later : rest.getLast? = some q → LastStep setup w' q) : LastStep setup w' q := by
  cases rest with
  | nil =>
    obtain rfl : p = q := Option.some.inj last
    rw [emitElements] at h
    exact here h
  | cons r rest =>
    rw [List.getLast?_cons_cons] at last
    exact later last

private theorem stop_concat (cuts : MillChain α) (cut : Cut α) :
    MillChain.stop (cuts ++ [cut]) = some cut.shape.stop := by
  rw [MillChain.stop, List.getLast?_concat, Option.map_some]

theorem lastStep_of_emitElements {elements : List (Placed α (Model α))} {chain : OpenChain α}
    {w : Writer α} (h : emitElements setup chain w elements = .ok w') {q : Placed α (Model α)}
    (last : elements.getLast? = some q) : LastStep setup w' q := by
  induction elements generalizing chain w with
  | nil => cases last
  | cons p rest ih =>
    obtain ⟨element, settings, sub⟩ := p
    rw [emitElements] at h
    split at h
    · next shape mark hkind =>
      obtain ⟨key, -, h⟩ := bind_eq_ok.mp h
      have hclose {key : ChainKey α} {cuts : MillChain α} {w : Writer α}
          (ends : cuts.stop = some shape.stop)
          (hmill : closeChain (some (key, cuts)) w setup = .ok w') :
          LastStep setup w' ⟨element, settings, sub⟩ := .cut hkind ends hmill
      cases chain with
      | none => exact .of_rest h last (hclose rfl) (ih h)
      | some shared =>
        dsimp only at h
        split at h
        · exact .of_rest h last (hclose (stop_concat _ _)) (ih h)
        · obtain ⟨w₁, -, h⟩ := bind_eq_ok.mp h
          exact .of_rest h last (hclose rfl) (ih h)
    · next start stop target hkind =>
      obtain ⟨w₁, -, h⟩ := bind_eq_ok.mp h
      cases sub with
      | none => cases h
      | some placed =>
        obtain ⟨w₂, hemit, h⟩ := bind_eq_ok.mp h
        refine .of_rest h last (fun hclose => ?_) (ih h)
        obtain rfl := Except.ok.inj hclose
        exact .placed hkind rfl hemit
    · next hcut hplaced =>
      obtain ⟨w₁, -, h⟩ := bind_eq_ok.mp h
      obtain ⟨w₂, hsingle, h⟩ := bind_eq_ok.mp h
      refine .of_rest h last (fun hclose => ?_) (ih h)
      obtain rfl := Except.ok.inj hclose
      exact .single hcut hplaced hsingle

end LastStep

theorem over_emitSingle {element : Element ℝ} {settings : Settings ℝ} {w w' : Writer ℝ}
    {setup : Setup ℝ} (h : emitSingle element settings w setup = .ok w')
    (notCut : ∀ shape mark, element.kind ≠ .cut shape mark)
    (notPlaced : ∀ start stop target, element.kind ≠ .subPath start stop target)
    (notProbe : element.isProbe = false) : w'.Over (setup.apply element.stop) := by
  obtain ⟨kind, order, params⟩ := element
  cases kind with
  | cut shape mark => exact absurd rfl (notCut shape mark)
  | subPath start stop target => exact absurd rfl (notPlaced start stop target)
  | probe position => cases notProbe
  | drill center mark =>
    obtain ⟨p, -, h⟩ := bind_eq_ok.mp h
    obtain rfl := Except.ok.inj h
    exact p.over_drill w setup _
  | helix center radius mark =>
    obtain ⟨p, -, h⟩ := bind_eq_ok.mp h
    obtain ⟨bit, -, h⟩ := bind_eq_ok.mp h
    obtain rfl := Except.ok.inj h
    exact p.over_bore w setup _ radius bit
  | sweep start stop | backSweep start stop =>
    obtain ⟨height, -, h⟩ := bind_eq_ok.mp h
    obtain ⟨rate, -, h⟩ := bind_eq_ok.mp h
    obtain rfl := Except.ok.inj h
    exact Writer.over_travelTo _ _ _

end Toolpath.Model
