import Toolpath.Model

/-!
What a path does, one task after the other. The tasks of a path with placed paths form one list, in
which every chain of cuts stands at its place, closed; `emit_ok` says that writing the moves of a
path is doing the tasks of this list. So what holds of a program is proved for the three kinds of
tasks, and not along the nesting of the paths.
-/

set_option autoImplicit false

namespace Toolpath.Model

variable {α : Type}

/-- What is done for some elements. -/
inductive Task (α : Type)
  /-- The comment in front of a placed path, with the settings of the place. -/
  | comment (settings : Settings α) (text : String)
  /-- The moves of an element that is neither a cut nor a placed path. -/
  | single (setup : Setup α) (element : Element α) (settings : Settings α)
  /-- The moves of neighbouring cuts. -/
  | chain (setup : Setup α) (cuts : MillChain α)

def closing (setup : Setup α) : OpenChain α → List (Task α)
  | none => []
  | some (_, cuts) => [.chain setup cuts]

variable [Scalar α]

def Task.run : Task α → Writer α → Except (EmitError α) (Writer α)
  | .comment _ text, w => .ok (w.comment text)
  | .single setup element settings, w => emitSingle element settings w setup
  | .chain setup cuts, w => cuts.mill w setup

def runAll (tasks : List (Task α)) (w : Writer α) : Except (EmitError α) (Writer α) :=
  tasks.foldlM (fun w t => t.run w) w

mutual

def tasks (setup : Setup α) : Model α → Except (EmitError α) (List (Task α))
  | ⟨_, _, _, _, elements, _⟩ => elementTasks setup none elements

/-- The tasks of the elements of a route, after those of an open chain. -/
def elementTasks (setup : Setup α) (chain : OpenChain α) :
    List (Placed α (Model α)) → Except (EmitError α) (List (Task α))
  | [] => .ok (closing setup chain)
  | ⟨element, settings, sub⟩ :: rest =>
    match element.kind with
    | .cut shape mark => do
      let key ← ChainKey.ofSettings settings mark
      let cut : Cut α := ⟨shape, mark, settings⟩
      match chain with
      | some (shared, cuts) =>
        if key == shared then elementTasks setup (some (shared, cuts ++ [cut])) rest
        else do
          let later ← elementTasks setup (some (key, [cut])) rest
          return closing setup chain ++ later
      | none => elementTasks setup (some (key, [cut])) rest
    | .subPath _ _ target => do
      match sub with
      | none => .error (.missingPath target)
      | some (model, placement) =>
        let inner ← tasks (setup.nested placement) model
        let later ← elementTasks setup none rest
        return closing setup chain ++
          .comment settings ("sub-path " ++ model.name.text) :: (inner ++ later)
    | _ => do
      let later ← elementTasks setup none rest
      return closing setup chain ++ .single setup element settings :: later

end

theorem bind_eq_ok {ε β γ : Type} {x : Except ε β} {f : β → Except ε γ} {c : γ} :
    (x >>= f) = .ok c ↔ ∃ b, x = .ok b ∧ f b = .ok c := by
  cases x with
  | error e => simp [bind, Except.bind]
  | ok b => simp [bind, Except.bind]

private theorem closeChain_eq (setup : Setup α) (chain : OpenChain α) (w : Writer α) :
    closeChain chain w setup = runAll (closing setup chain) w := by
  cases chain with
  | none => rfl
  | some shared => simp [closeChain, closing, runAll, Task.run]

private theorem runAll_append (first later : List (Task α)) (w : Writer α) :
    runAll (first ++ later) w = runAll first w >>= runAll later := by
  simp [runAll]
  rfl

theorem runAll_cons (t : Task α) (ts : List (Task α)) (w : Writer α) :
    runAll (t :: ts) w = t.run w >>= runAll ts := by
  simp [runAll]
  rfl

mutual

theorem emit_ok {setup : Setup α} {w w' : Writer α} : (m : Model α) → emit setup w m = .ok w' →
    ∃ ts, tasks setup m = .ok ts ∧ runAll ts w = .ok w'
  | ⟨_, _, _, _, elements, _⟩, h => elements_ok elements h

private theorem elements_ok {setup : Setup α} {chain : OpenChain α} {w w' : Writer α} :
    (elements : List (Placed α (Model α))) → emitElements setup chain w elements = .ok w' →
      ∃ ts, elementTasks setup chain elements = .ok ts ∧ runAll ts w = .ok w'
  | [], h => by
    rw [emitElements, closeChain_eq] at h
    exact ⟨_, by rw [elementTasks], h⟩
  | ⟨element, settings, sub⟩ :: rest, h => by
    rw [emitElements] at h
    split at h
    · next shape mark hkind =>
      obtain ⟨key, hkey, h⟩ := bind_eq_ok.mp h
      rw [elementTasks]
      simp only [hkind, hkey, bind, Except.bind]
      cases chain with
      | none => exact elements_ok rest h
      | some shared =>
        dsimp only at h ⊢
        split at h
        -- A cut that goes on with the chain is no task yet.
        · next hsame =>
          rw [if_pos hsame]
          exact elements_ok rest h
        · next hother =>
          obtain ⟨w₁, hclose, h⟩ := bind_eq_ok.mp h
          obtain ⟨ts, hts, hrun⟩ := elements_ok rest h
          rw [if_neg hother, hts]
          refine ⟨_, rfl, ?_⟩
          rw [runAll_append, ← closeChain_eq, hclose]
          exact hrun
    · next start stop target hkind =>
      obtain ⟨w₁, hclose, h⟩ := bind_eq_ok.mp h
      cases sub with
      | none => cases h
      | some placed =>
        obtain ⟨model, placement⟩ := placed
        obtain ⟨w₂, hemit, h⟩ := bind_eq_ok.mp h
        obtain ⟨inner, hinner, hrunInner⟩ := emit_ok model hemit
        obtain ⟨later, hlater, hrunLater⟩ := elements_ok rest h
        rw [elementTasks]
        simp only [hkind, hinner, hlater, bind, Except.bind]
        refine ⟨_, rfl, ?_⟩
        rw [runAll_append, ← closeChain_eq, hclose]
        change runAll (inner ++ later) (w₁.comment ("sub-path " ++ model.name.text)) = .ok w'
        rw [runAll_append, hrunInner]
        exact hrunLater
    · next hcut hsub =>
      obtain ⟨w₁, hclose, h⟩ := bind_eq_ok.mp h
      obtain ⟨w₂, hsingle, h⟩ := bind_eq_ok.mp h
      obtain ⟨later, hlater, hrun⟩ := elements_ok rest h
      rw [elementTasks]
      split
      · next hkind => exact absurd hkind (hcut _ _)
      · next hkind => exact absurd hkind (hsub _ _ _)
      · rw [hlater]
        refine ⟨_, rfl, ?_⟩
        rw [runAll_append, ← closeChain_eq, hclose]
        refine bind_eq_ok.mpr ⟨w₁, rfl, ?_⟩
        rw [runAll_cons]
        exact bind_eq_ok.mpr ⟨w₂, hsingle, hrun⟩

end

theorem exists_emitSingle_of_emitElements {setup : Setup α} {p : Placed α (Model α)}
    (uncut : ∀ shape mark, p.element.kind ≠ .cut shape mark)
    (unplaced : ∀ start stop target, p.element.kind ≠ .subPath start stop target)
    {back : List (Placed α (Model α))} {w' : Writer α} : (front : List (Placed α (Model α))) →
    {chain : OpenChain α} → {w : Writer α} →
    emitElements setup chain w (front ++ p :: back) = .ok w' →
    ∃ v v', emitElements setup chain w front = .ok v ∧
      emitSingle p.element p.settings v setup = .ok v' ∧ emitElements setup none v' back = .ok w'
  | [], chain, w, h => by
    rw [List.nil_append, emitElements] at h
    split at h
    · next hkind => exact absurd hkind (uncut _ _)
    · next hkind => exact absurd hkind (unplaced _ _ _)
    · obtain ⟨v, hclose, h⟩ := bind_eq_ok.mp h
      obtain ⟨v', hsingle, h⟩ := bind_eq_ok.mp h
      exact ⟨v, v', by rw [emitElements, hclose], hsingle, h⟩
  | ⟨element, settings, sub⟩ :: front, chain, w, h => by
    rw [List.cons_append, emitElements] at h
    rw [emitElements]
    split at h
    · obtain ⟨key, hkey, h⟩ := bind_eq_ok.mp h
      simp only [hkey, bind, Except.bind]
      cases chain with
      | none => exact exists_emitSingle_of_emitElements uncut unplaced front h
      | some shared =>
        dsimp only at h ⊢
        split at h
        · next hsame =>
          rw [if_pos hsame]
          exact exists_emitSingle_of_emitElements uncut unplaced front h
        · next hother =>
          obtain ⟨w₁, hclose, h⟩ := bind_eq_ok.mp h
          rw [if_neg hother, hclose]
          exact exists_emitSingle_of_emitElements uncut unplaced front h
    · obtain ⟨w₁, hclose, h⟩ := bind_eq_ok.mp h
      simp only [hclose, bind, Except.bind]
      cases sub with
      | none => cases h
      | some placed =>
        obtain ⟨w₂, hemit, h⟩ := bind_eq_ok.mp h
        simp only [hemit]
        exact exists_emitSingle_of_emitElements uncut unplaced front h
    · obtain ⟨w₁, hclose, h⟩ := bind_eq_ok.mp h
      obtain ⟨w₂, hsingle, h⟩ := bind_eq_ok.mp h
      obtain ⟨v, v', hfront, hrest⟩ := exists_emitSingle_of_emitElements uncut unplaced front h
      exact ⟨v, v', bind_eq_ok.mpr ⟨w₁, hclose, bind_eq_ok.mpr ⟨w₂, hsingle, hfront⟩⟩, hrest⟩

end Toolpath.Model
