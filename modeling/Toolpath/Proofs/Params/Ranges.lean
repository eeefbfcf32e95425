import Toolpath.Params.Settings
import Toolpath.Proofs.Params.Reading
import Toolpath.Proofs.Scalar.Order

/-!
Which values a parameter can have. An overlay that was read holds only finite numbers that its
parameters may take, for a text that stands for another value is refused; so do the defaults, if
nothing is wrong with them and they are numbers; and a parameter has its value from one of the
overlays.
-/

set_option autoImplicit false

namespace Toolpath

variable {α : Type} [Scalar α]

def Field.Admits (f : Field) (value : α) : Prop :=
  match f.constraint with
  | .positive => 0.0 < value
  | .nonNegative => 0.0 ≤ value
  | .any => True

def Overlay.Only (P : Field → α → Prop) (o : Overlay α) : Prop :=
  ∀ f value, o.get? f = some value → P f value

def Settings.Only (P : Field → α → Prop) (s : Settings α) : Prop := ∀ o ∈ s.overlays, o.Only P

def Overlay.InRange (o : Overlay α) : Prop := ∀ f value, o.get? f = some value → f.Admits value

def Settings.InRange (s : Settings α) : Prop := ∀ o ∈ s.overlays, o.InRange

namespace Overlay

variable {P : Field → α → Prop}

omit [Scalar α] in
private theorem get?_set (o : Overlay α) (f g : Field) (value : α) :
    (o.set f value).get? g = if g = f then some value else o.get? g := rfl

theorem addEntries_number {o : Overlay α} {bindings : Bindings} {key : Char} {text : String}
    {rest : List (Char × String)} {d : Decimal} (f : Field) (value : α)
    (hkey : Field.ofKey? key = some f) (hallows : o.level.allows f = true)
    (hnumber : (bindings.substitute text.toList).toOption.bind
      (fun number => Decimal.ofText? (Text.trim number)) = some d)
    (hvalue : Scalar.ofDecimal d = value) (hfinite : Scalar.isFinite value = true)
    (hrange : f.rangeProblem value = none) :
    o.addEntries bindings ((key, text) :: rest) = (o.set f value).addEntries bindings rest := by
  have hdenotes : Denotes bindings text value := by
    cases hfilled : bindings.substitute text.toList with
    | error letter => simp [hfilled, Except.toOption] at hnumber
    | ok filled =>
      rw [hfilled] at hnumber
      exact ⟨filled, d, hfilled, hnumber, hvalue, hfinite⟩
  have hread : readEntry o.level bindings key text = .ok (f, value) :=
    readEntry_eq_ok_iff.mpr ⟨Field.ofKey?_eq_some_iff.mp hkey, hallows, hdenotes⟩
  simp [addEntries, addEntry, hread, hrange]

omit [Scalar α] in
theorem only_empty (level : Level) (context : Context α) : (empty level context).Only P := by
  intro f value h
  cases h

omit [Scalar α] in
private theorem Only.set {o : Overlay α} (h : o.Only P) {f : Field} {value : α}
    (hvalue : P f value) :
    (o.set f value).Only P := by
  intro g v hv
  rw [get?_set] at hv
  split at hv
  · next heq =>
    obtain rfl := Option.some.inj hv
    exact heq ▸ hvalue
  · exact h g v hv

/-- All values that are read have a property if all finite ones have it that a parameter may take.
-/
def Reads (P : Field → α → Prop) : Prop :=
  ∀ (f : Field) value, Scalar.isFinite value = true → f.rangeProblem value = none → P f value

private theorem Only.addEntry {o : Overlay α} (h : o.Only P) (reads : Reads P) (bindings : Bindings)
    (key : Char) (text : String) : (o.addEntry bindings key text).1.Only P := by
  unfold Overlay.addEntry
  split
  · exact h
  · next f value hread =>
    split
    · exact h
    · next hproblem =>
      exact h.set (reads f value (readEntry_eq_ok_iff.mp hread).2.2.isFinite hproblem)

private theorem Only.addEntries {o : Overlay α} (h : o.Only P) (reads : Reads P)
    (bindings : Bindings)
    (entries : List (Char × String)) : (o.addEntries bindings entries).1.Only P := by
  induction entries generalizing o with
  | nil => exact h
  | cons entry entries ih => exact ih (h.addEntry reads bindings entry.1 entry.2)

theorem only_read (reads : Reads P) (level : Level) (context : Context α) (texts : ParamTexts)
    (bindings : Bindings) : (read level context texts bindings).1.Only P :=
  (only_empty level context).addEntries reads bindings texts.entries

end Overlay

section Numbers

variable [NumberScalar α]

private theorem Field.admits_of_rangeProblem {f : Field} {value : α} (number : value ≤ value)
    (h : f.rangeProblem value = none) : f.Admits value := by
  have hzero : (0.0 : α) ≤ 0.0 := NumberScalar.zero_le_zero
  unfold Field.rangeProblem at h
  split at h
  · next hpositive =>
    split at h
    · cases h
    · next hnot =>
      have hle := (OrderedScalar.le_total (0.0 : α) value hzero number).resolve_right hnot
      unfold Field.Admits
      rw [hpositive]
      exact (OrderedScalar.lt_iff _ _).mpr ⟨hle, hnot⟩
  · next hnonNegative =>
    split at h
    · cases h
    · next hnot =>
      unfold Field.Admits
      rw [hnonNegative]
      exact OrderedScalar.le_of_not_lt number hzero hnot
  · next hany =>
    unfold Field.Admits
    rw [hany]
    trivial

theorem Field.rangeProblem_of_admits {f : Field} {value : α} (h : f.Admits value) :
    f.rangeProblem value = none := by
  cases hconstraint : f.constraint with
  | positive =>
    simp only [Field.Admits, Field.rangeProblem, hconstraint] at h ⊢
    exact if_neg ((OrderedScalar.lt_iff _ _).mp h).2
  | nonNegative =>
    simp only [Field.Admits, Field.rangeProblem, hconstraint] at h ⊢
    exact if_neg fun hlt => ((OrderedScalar.lt_iff _ _).mp hlt).2 h
  | any => simp only [Field.rangeProblem, hconstraint]

theorem Field.reads_admits : Overlay.Reads (Field.Admits (α := α)) :=
  fun _ value finite problem =>
    admits_of_rangeProblem (NumberScalar.le_self_of_isFinite value finite) problem

theorem Defaults.inRange_overlay {d : Defaults α} (problems : d.problems = [])
    (numbers : ∀ f value, d.value f = some value → value ≤ value) : d.overlay.InRange := by
  intro f value hvalue
  have hfield : (f, value) ∈ d.overlay.fields := by
    refine List.mem_filterMap.mpr ⟨f, Field.mem_all f, ?_⟩
    change (d.overlay.get? f).map _ = _
    rw [hvalue, Option.map_some]
  have hproblem := List.filterMap_eq_nil_iff.mp problems (f, value) hfield
  rw [Option.map_eq_none_iff] at hproblem
  exact Field.admits_of_rangeProblem (numbers f value hvalue) hproblem

end Numbers

namespace Settings

omit [Scalar α] in
theorem get?_of_require {s : Settings α} {f : Field} {value : α}
    (h : s.require f = .ok value) : s.get? f = some value := by
  unfold Settings.require at h
  split at h
  · next v hv => rw [hv, Except.ok.inj h]
  · cases h

variable {P : Field → α → Prop}

omit [Scalar α] in
theorem Only.push {s : Settings α} (h : s.Only P) {o : Overlay α} (ho : o.Only P) :
    (s.push o).Only P := by
  intro other hother
  rcases List.mem_cons.mp hother with rfl | hother
  · exact ho
  · exact h other hother

omit [Scalar α] in
theorem Only.push? {s : Settings α} (h : s.Only P) {o : Option (Overlay α)}
    (ho : ∀ other, o = some other → other.Only P) : (s.push? o).Only P := by
  cases o with
  | none => exact h
  | some other => exact h.push (ho other rfl)

omit [Scalar α] in
theorem Only.get? {s : Settings α} (h : s.Only P) {f : Field} {value : α}
    (hvalue : s.get? f = some value) : P f value := by
  obtain ⟨o, ho, hset⟩ := List.exists_of_findSome?_eq_some hvalue
  exact h o ho f value hset

private theorem InRange.get? {s : Settings α} (h : s.InRange) {f : Field} {value : α}
    (hvalue : s.get? f = some value) : f.Admits value :=
  Only.get? h hvalue

/-- The values of some settings are sound: each is one that its parameter may take, and they go
together. -/
structure Sound (s : Settings α) : Prop where
  positive : ∀ f ∈ [Field.feedRate, .plungeRate, .sweepRate, .bitDiameter, .step, .barWidth, .barRun],
    ∀ value, s.get? f = some value → 0.0 < value
  nonNegative : ∀ f ∈ [Field.barMargin, .barRamp, .barHeight],
    ∀ value, s.get? f = some value → 0.0 ≤ value
  bottom : ∀ top bottom, s.get? .top = some top → s.get? .bottom = some bottom → ¬ top < bottom
  sweep : ∀ top sweep, s.get? .top = some top → s.get? .sweepHeight = some sweep → ¬ sweep < top
  bar : ∀ top bottom height, s.get? .top = some top → s.get? .bottom = some bottom →
    s.get? .barHeight = some height → ¬ top - bottom < height

private theorem bottomProblem_eq_none {s : Settings α} (h : s.bottomProblem = none) {top bottom : α}
    (htop : s.get? .top = some top) (hbottom : s.get? .bottom = some bottom) : ¬ top < bottom := by
  intro hlt
  simp [bottomProblem, htop, hbottom, hlt] at h

private theorem sweepProblem_eq_none {s : Settings α} (h : s.sweepProblem = none) {top sweep : α}
    (htop : s.get? .top = some top) (hsweep : s.get? .sweepHeight = some sweep) :
    ¬ sweep < top := by
  intro hlt
  simp [sweepProblem, htop, hsweep, hlt] at h

private theorem barProblem_eq_none {s : Settings α} (h : s.barProblem = none)
    {top bottom height : α} (htop : s.get? .top = some top) (hbottom : s.get? .bottom = some bottom)
    (hheight : s.get? .barHeight = some height) : ¬ top - bottom < height := by
  intro hlt
  simp [barProblem, htop, hbottom, hheight, hlt] at h

theorem problems_eq_nil_iff {s : Settings α} :
    s.problems = [] ↔ s.bottomProblem = none ∧ s.barProblem = none ∧ s.sweepProblem = none := by
  simp only [problems, List.append_eq_nil_iff, Option.toList_eq_nil_iff, and_assoc]

theorem InRange.sound {s : Settings α} (range : s.InRange) (problems : s.problems = []) :
    s.Sound where
  positive := by
    intro f hf value hvalue
    simp only [List.mem_cons, List.not_mem_nil, or_false] at hf
    rcases hf with rfl | rfl | rfl | rfl | rfl | rfl | rfl <;> exact range.get? hvalue
  nonNegative := by
    intro f hf value hvalue
    simp only [List.mem_cons, List.not_mem_nil, or_false] at hf
    rcases hf with rfl | rfl | rfl <;> exact range.get? hvalue
  bottom top bottom htop hbottom :=
    bottomProblem_eq_none (problems_eq_nil_iff.mp problems).1 htop hbottom
  sweep top sweep htop hsweep :=
    sweepProblem_eq_none (problems_eq_nil_iff.mp problems).2.2 htop hsweep
  bar top bottom height htop hbottom hheight :=
    barProblem_eq_none (problems_eq_nil_iff.mp problems).2.1 htop hbottom hheight

end Settings

end Toolpath
