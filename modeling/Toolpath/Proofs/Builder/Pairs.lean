import Toolpath.Proofs.Builder.Calls

/-!
Two builders side by side. Steps on related states have the same result and leave related states if
their parts do, so a construction does if the placed paths are built so.
-/

set_option autoImplicit false

namespace Toolpath.Build

variable {α : Type}

/-- On related states two steps have the same result, and they leave related states. -/
def Matches {β : Type} (R : BuildState α → BuildState α → Prop) (x y : Build α β) : Prop :=
  ∀ s t, R s t → (x.run s).1 = (y.run t).1 ∧ R (x.run s).2 (y.run t).2

namespace Matches

variable {β γ : Type} {R : BuildState α → BuildState α → Prop}

theorem pure (b : β) : Matches R (Pure.pure b) (Pure.pure b) := fun _ _ h => ⟨rfl, h⟩

theorem bind {x y : Build α β} {f g : β → Build α γ} (h : Matches R x y)
    (hf : ∀ b, Matches R (f b) (g b)) : Matches R (x >>= f) (y >>= g) := by
  intro s t hst
  obtain ⟨hresult, hstates⟩ := h s t hst
  rw [run_bind, run_bind, hresult]
  exact hf _ _ _ hstates

private theorem mapM {f g : β → Build α γ} {bs : List β} (h : ∀ b ∈ bs, Matches R (f b) (g b)) :
    Matches R (bs.mapM f) (bs.mapM g) := by
  induction bs with
  | nil =>
    rw [List.mapM_nil, List.mapM_nil]
    exact pure []
  | cons b bs ih =>
    obtain ⟨hfirst, hrest⟩ := List.forall_mem_cons.mp h
    rw [List.mapM_cons, List.mapM_cons]
    exact bind hfirst fun c => bind (ih hrest) fun cs => pure _

end Matches

section Constructions

variable {R : BuildState α → BuildState α → Prop}

def Reporting (R : BuildState α → BuildState α → Prop) : Prop :=
  ∀ ds s t, R s t → R (s.report ds) (t.report ds)

private theorem Reporting.report (hR : Reporting R) (ds : List (Diagnostic α)) :
    Matches R (Build.report ds) (Build.report ds) := fun s t h => ⟨rfl, hR ds s t h⟩

private theorem Reporting.bind_take (hR : Reporting R) {β γ : Type}
    {result : β × List (Diagnostic α)}
    {f g : β → Build α γ} (h : Matches R (f result.1) (g result.1)) :
    Matches R (take result >>= f) (take result >>= g) :=
  fun s t hst => h _ _ (hR result.2 s t hst)

variable [Scalar α] {place other : ModelKey → Build α (Option (Model α))}

private theorem resolve_matches (hR : Reporting R) (scope : Scope α) (e : Element α)
    (h : ∀ key, Target e key.name → Matches R (place key) (other key)) :
    Matches R (resolve place scope e) (resolve other scope e) := by
  unfold resolve
  refine hR.bind_take (.bind (hR.report _) fun _ => ?_)
  dsimp only
  split
  · exact .bind (hR.report _) fun _ => .pure _
  · next start stop target hkind =>
    split
    · exact .bind (hR.report _) fun _ => .pure _
    · refine .bind (h _ ⟨start, stop, hkind⟩) fun outcome => ?_
      cases outcome with
      | none => exact .pure _
      | some model => exact hR.bind_take (.pure _)
  · exact .pure _

theorem construct_matches (hR : Reporting R) (defaults : Defaults α) (layer : Layer α)
    (bindings : Bindings)
    (h : ∀ key, key.name ∈ layer.references → Matches R (place key) (other key)) :
    Matches R (construct place defaults layer bindings)
      (construct other defaults layer bindings) := by
  unfold construct
  refine hR.bind_take (hR.bind_take (hR.bind_take ?_))
  split
  · refine hR.bind_take (.bind (.mapM fun e he => ?_) fun placed => ?_)
    · exact resolve_matches hR _ e fun key hkey => h key (references_of_mem_route he key.name hkey)
    · exact .bind (hR.report _) fun _ => .pure _
  · exact .pure _

end Constructions

end Toolpath.Build
