import Toolpath.Builder

/-!
What is wrong with a drawing is an error: its defaults and names, the texts of its parameters, the
values that do not go together, the marks of a layer, its route, the fit of a placed path and the
bed probes. And where one of these gives no result, there is an error that says why.
-/

set_option autoImplicit false

namespace Toolpath

variable {α : Type} [Scalar α]

omit [Scalar α] in
def AllErrors (ds : List (Diagnostic α)) : Prop := ∀ d ∈ ds, d.severity = .error

omit [Scalar α] in
private theorem AllErrors.nil : AllErrors ([] : List (Diagnostic α)) := by
  simp [AllErrors]

omit [Scalar α] in
private theorem AllErrors.one (context : Context α) (message : String) (parameters : List String) :
    AllErrors [Diagnostic.error context message parameters] := by
  simp [AllErrors, Diagnostic.error]

omit [Scalar α] in
private theorem AllErrors.append {ds es : List (Diagnostic α)} (hd : AllErrors ds)
    (he : AllErrors es) : AllErrors (ds ++ es) := by
  intro d h
  exact (List.mem_append.mp h).elim (hd d) (he d)

private theorem Overlay.allErrors_addEntries (bindings : Bindings) (o : Overlay α)
    (entries : List (Char × String)) : AllErrors (o.addEntries bindings entries).2 := by
  induction entries generalizing o with
  | nil => exact .nil
  | cons entry rest ih =>
    obtain ⟨key, text⟩ := entry
    refine AllErrors.append ?_ (ih (o.addEntry bindings key text).1)
    cases hread : (Overlay.readEntry o.level bindings key text : Except ParamError (Field × α)) with
    | error e => simpa [Overlay.addEntry, hread] using AllErrors.one _ _ _
    | ok entry =>
      obtain ⟨field, value⟩ := entry
      cases hrange : field.rangeProblem value with
      | some problem => simpa [Overlay.addEntry, hread, hrange] using AllErrors.one _ _ _
      | none => simpa [Overlay.addEntry, hread, hrange] using AllErrors.nil

omit [Scalar α] in
def Diagnostic.Compares (d : Diagnostic α) : Prop :=
  ∃ (context : Context α) (message : String) (m n : Numeral) (a b : List Char),
    d = .error context message [m.text, n.text] ∧
      message.toList = a ++ (placeholder 0 ++ (b ++ placeholder 1)) ∧ '{' ∉ a ∧ '{' ∉ b

theorem Settings.compares_of_mem_problems {s : Settings α} {d : Diagnostic α}
    (h : d ∈ s.problems) : d.Compares := by
  simp only [problems, List.mem_append, Option.mem_toList] at h
  rcases h with (h | h) | h
  · simp only [bottomProblem, Option.bind_eq_bind, Option.bind_eq_some_iff] at h
    obtain ⟨top, -, bottom, -, h⟩ := h
    split at h
    · exact ⟨_, _, Scalar.shortest bottom, Scalar.shortest top, "Bottom ".toList,
        " is above Top ".toList, (Option.some.inj h).symm, rfl, by decide, by decide⟩
    · cases h
  · simp only [barProblem, Option.bind_eq_bind, Option.bind_eq_some_iff] at h
    obtain ⟨top, -, bottom, -, height, -, h⟩ := h
    split at h
    · exact ⟨_, _, Scalar.shortest height, Scalar.shortest (top - bottom), "BarHeight ".toList,
        " exceeds material thickness ".toList, (Option.some.inj h).symm, rfl, by decide, by decide⟩
    · cases h
  · simp only [sweepProblem, Option.bind_eq_bind, Option.bind_eq_some_iff] at h
    obtain ⟨top, -, sweep, -, h⟩ := h
    split at h
    · exact ⟨_, _, Scalar.shortest sweep, Scalar.shortest top, "SweepHeight ".toList,
        " is below Top ".toList, (Option.some.inj h).symm, rfl, by decide, by decide⟩
    · cases h

theorem Settings.allErrors_problems (s : Settings α) : AllErrors s.problems := by
  intro d hd
  obtain ⟨_, _, _, _, _, _, rfl, -⟩ := compares_of_mem_problems hd
  rfl

private theorem Defaults.allErrors_problems (d : Defaults α) : AllErrors d.problems := by
  intro problem hproblem
  obtain ⟨⟨field, value⟩, -, h⟩ := List.mem_filterMap.mp hproblem
  obtain ⟨text, -, rfl⟩ := Option.map_eq_some_iff.mp h
  rfl

omit [Scalar α] in
private theorem Library.allErrors_add (lib : Library α) (l : Layer α) :
    AllErrors (lib.add l).2 := by
  unfold Library.add
  split
  · exact .one _ _ _
  · exact .nil

omit [Scalar α] in
private theorem Library.allErrors_addAll (lib : Library α) (layers : List (Layer α)) :
    AllErrors (lib.addAll layers).2 := by
  induction layers generalizing lib with
  | nil => exact .nil
  | cons l layers ih => exact (lib.allErrors_add l).append (ih (lib.add l).1)

theorem Library.allErrors_ofLayers (defaults : Defaults α) (layers : List (Layer α)) :
    AllErrors (Library.ofLayers defaults layers).2 :=
  defaults.allErrors_problems.append (Library.allErrors_addAll ⟨[], defaults⟩ layers)

theorem Route.allErrors_assemble (path : PathName) (elements : List (Element α))
    (start stop : Point α) : AllErrors (Route.assemble path elements start stop).2 := by
  simp only [Route.assemble, Route.problems]
  split
  · split
    · exact .nil
    · exact .one _ _ _
  · refine .append ?_ (.one _ _ _)
    split
    · exact .nil
    · exact .one _ _ _

theorem Route.exists_error_of_not_complete {path : PathName} {elements : List (Element α)}
    {start stop : Point α} (h : (Route.assemble path elements start stop).1.complete = false) :
    ∃ d ∈ (Route.assemble path elements start stop).2, d.severity = .error := by
  refine (List.exists_mem_of_ne_nil _ fun hnil => ?_).imp fun d hd =>
    ⟨hd, allErrors_assemble path elements start stop d hd⟩
  simp only [Route.assemble, Route.problems] at h hnil
  split at hnil
  · next hreached =>
    split at hnil
    · next hleft =>
      rw [hreached, hleft] at h
      cases h
    · cases hnil
  · simp at hnil

omit [Scalar α] in
def Explained {β : Type} (result : Option β × List (Diagnostic α)) : Prop :=
  result.1 = none → ∃ d ∈ result.2, d.severity = .error

namespace Build

omit [Scalar α] in
theorem allErrors_anchor (layer : Layer α) (kind : AnchorKind) :
    AllErrors (anchor layer kind).2 := by
  unfold anchor
  split
  · exact .nil
  · exact .one _ _ _
  · exact .one _ _ _

theorem allErrors_scopeOf (defaults : Defaults α) (layer : Layer α) (bindings : Bindings) :
    AllErrors (scopeOf defaults layer bindings).2 := by
  refine .append (.append ?_ (Settings.allErrors_problems _)) ?_
  · exact Overlay.allErrors_addEntries _ _ _
  · intro d hd
    obtain ⟨read, hread, hd⟩ := List.mem_flatMap.mp hd
    obtain ⟨level, -, hlevel⟩ := List.mem_filterMap.mp hread
    obtain ⟨texts, -, rfl⟩ := Option.map_eq_some_iff.mp hlevel
    exact Overlay.allErrors_addEntries _ _ _ d hd

theorem allErrors_settingsOf (scope : Scope α) (e : Element α) :
    AllErrors (settingsOf scope e).2 := by
  unfold settingsOf
  split
  · exact .nil
  · exact Overlay.allErrors_addEntries _ _ _

theorem allErrors_fit (context : Context α) (target : PathName) (start stop : Point α)
    (model : Model α) : AllErrors (fit context target start stop model).2 := by
  unfold fit
  split
  · exact .nil
  · exact .one _ _ _

theorem allErrors_bedProbe (scope : Scope α) (e : Element α) : AllErrors (bedProbe scope e).2 := by
  have h := allErrors_settingsOf scope e
  cases htarget :
      ((settingsOf scope e).1.get? .probeHeight).or ((settingsOf scope e).1.get? .top) with
  | some target => simpa [bedProbe, htarget] using h
  | none => simpa [bedProbe, htarget] using h.append (.one _ _ _)

omit [Scalar α] in
theorem explained_anchor (layer : Layer α) (kind : AnchorKind) : Explained (anchor layer kind) := by
  intro h
  unfold anchor at h ⊢
  split at h
  · cases h
  · exact ⟨_, List.mem_singleton.mpr rfl, rfl⟩
  · exact ⟨_, List.mem_singleton.mpr rfl, rfl⟩

theorem explained_fit (context : Context α) (target : PathName) (start stop : Point α)
    (model : Model α) : Explained (fit context target start stop model) := by
  intro h
  unfold fit at h ⊢
  split at h
  · cases h
  · exact ⟨_, List.mem_singleton.mpr rfl, rfl⟩

theorem explained_bedProbe (scope : Scope α) (e : Element α) : Explained (bedProbe scope e) := by
  intro h
  unfold bedProbe at h ⊢
  dsimp only at h ⊢
  split at h
  · cases h
  · exact ⟨_, List.mem_append_right _ (List.mem_singleton.mpr rfl), rfl⟩

end Build

end Toolpath
