import Toolpath.Proofs.Builder.Names
import Toolpath.Proofs.Builder.Probes
import Toolpath.Proofs.Program.Plain
import Toolpath.Proofs.Scalar.Printing
import Toolpath.Proofs.Setup.Formulas

/-!
The file of nominal heights. It sets the parameter of each probe to the height that is expected
there, so the corrections in a program are corrections by nothing: every height comes out as it
would be written without probes, whatever the weights are. A height below zero is written with its
sign in the file and without it, as a number to be added, in the program; the two are printed with
the same digits.
-/

set_option autoImplicit false

namespace Toolpath

private theorem mapM_eq_some {β γ : Type} {f : β → Option γ} {g : β → γ} {xs : List β}
    (h : ∀ x ∈ xs, f x = some (g x)) : xs.mapM f = some (xs.map g) := by
  induction xs with
  | nil => rfl
  | cons x xs ih =>
    obtain ⟨hx, hxs⟩ := List.forall_mem_cons.mp h
    rw [List.mapM_cons, hx, ih hxs]
    rfl

namespace Heights

/-- An assignment of a number to a parameter. -/
def assignment? (line : List Char) : Option (Nat × ℚ) :=
  match line with
  | '#' :: rest =>
    match Decimal.takeDigits rest with
    | (first :: digits, '=' :: number) => do
      let value ← Decimal.number? number
      return (Nat.ofDigitChars 10 (first :: digits) 0, value)
    | _ => none
  | _ => none

def assignments? (text : List Char) : Option (List (Nat × ℚ)) :=
  ((text.splitOn '\n').dropLast).mapM assignment?

/-- What a parameter is set to, by the last of its assignments. -/
def assigned : List (Nat × ℚ) → Nat → Option ℚ
  | [], _ => none
  | (n, value) :: later, parameter =>
    (assigned later parameter).or (if n = parameter then some value else none)

private theorem assigned_eq_none {assignments : List (Nat × ℚ)} {n : Nat}
    (h : n ∉ assignments.map Prod.fst) : assigned assignments n = none := by
  induction assignments with
  | nil => rfl
  | cons first later ih =>
    rw [List.map_cons, List.mem_cons, not_or] at h
    rw [assigned, ih h.2, Option.none_or, if_neg (Ne.symm h.1)]

private theorem assigned_of_mem {assignments : List (Nat × ℚ)}
    (h : (assignments.map Prod.fst).Nodup) {n : Nat} {value : ℚ} (hmem : (n, value) ∈ assignments) :
    assigned assignments n = some value := by
  induction assignments with
  | nil => cases hmem
  | cons first later ih =>
    obtain ⟨hfirst, hlater⟩ := List.nodup_cons.mp h
    rcases List.mem_cons.mp hmem with rfl | hmem
    · rw [assigned, assigned_eq_none hfirst, Option.none_or, if_pos rfl]
    · rw [assigned, ih hlater hmem, Option.some_or]

private theorem assignment?_text {n : Numeral} {value : ℚ} (h : n.value? = some value) (i : Nat) :
    assignment? ("#" ++ toString i ++ "=" ++ n.text).toList = some (i, value) := by
  have htext : ("#" ++ toString i ++ "=" ++ n.text).toList =
      '#' :: (Nat.toDigits 10 i ++ '=' :: n.text.toList) := by simp
  have hdigits : Decimal.takeDigits (Nat.toDigits 10 i ++ '=' :: n.text.toList) =
      (Nat.toDigits 10 i, '=' :: n.text.toList) :=
    Decimal.takeDigits_append (Decimal.digits_toDigits i) (by simp)
  have hread : Nat.ofDigitChars 10 (Nat.toDigits 10 i) 0 = i := Nat.ofDigitChars_ten_toDigits
  obtain ⟨first, digits, hcons⟩ := List.exists_cons_of_ne_nil (Nat.toDigits_ne_nil (b := 10) (n := i))
  rw [hcons] at htext hdigits hread
  rw [htext, assignment?]
  simp only [hdigits, Numeral.number?_text h, hread]
  rfl

end Heights

open Heights (assignments? assigned)

namespace Model

variable {α : Type} [Scalar α]

def targetValue (probe : BedProbe α) : ℚ := (Scalar.coordinateNumeral probe.target).value?.getD 0

def assignments (m : Model α) : List (Nat × ℚ) :=
  m.probes.zipIdx.map fun (probe, i) => (probeVariable i, targetValue probe)

variable [PrintedScalar α] {m : Model α}

private theorem value?_target {probe : BedProbe α} (h : Scalar.isFinite probe.target = true) :
    (Scalar.coordinateNumeral probe.target).value? = some (targetValue probe) := by
  obtain ⟨d, hd⟩ := Scalar.exists_coordinateNumeral h
  rw [targetValue, hd]
  rfl

private theorem oneLine_assignment (i : Nat) (n : Numeral) :
    OneLine ("#" ++ toString i ++ "=" ++ n.text) := by
  simp +decide

private theorem assignments?_nominalHeights
    (finite : ∀ probe ∈ m.probes, Scalar.isFinite probe.target = true) :
    assignments? m.nominalHeights.toList = some m.assignments := by
  let line (probe : BedProbe α × Nat) : String :=
    "#" ++ toString (probeVariable probe.2) ++ "=" ++ Scalar.coordinate probe.1.target
  have htext : m.nominalHeights = String.join ((m.probes.zipIdx.map line).map (· ++ "\n")) := by
    rw [nominalHeights, List.map_map]
    rfl
  have hlines : ∀ text ∈ m.probes.zipIdx.map line, OneLine text := by
    rw [List.forall_mem_map]
    exact fun probe _ => oneLine_assignment _ _
  have hread : ∀ probe ∈ m.probes.zipIdx, Heights.assignment? (line probe).toList =
      some (probeVariable probe.2, targetValue probe.1) := by
    intro probe hprobe
    exact Heights.assignment?_text (value?_target (finite _ (List.fst_mem_of_mem_zipIdx hprobe))) _
  rw [assignments?, htext, splitOn_join_of_oneLine hlines, List.dropLast_concat, List.map_map,
    List.mapM_map]
  exact mapM_eq_some hread

omit [PrintedScalar α] in
private theorem assigned_probe {i : Nat} {probe : BedProbe α} (h : m.probes[i]? = some probe) :
    assigned m.assignments (probeVariable i) = some (targetValue probe) := by
  have hnumbers : m.assignments.map Prod.fst = (List.range m.probes.length).map probeVariable := by
    rw [assignments, List.map_map, List.range_eq_range', ← List.zipIdx_map_snd 0 m.probes,
      List.map_map]
    rfl
  have hnodup : (m.assignments.map Prod.fst).Nodup := by
    rw [hnumbers]
    exact List.nodup_range.map fun i j hij => Nat.add_left_cancel hij
  refine Heights.assigned_of_mem hnodup (List.mem_map.mpr ⟨(probe, i), ?_, rfl⟩)
  exact List.mem_zipIdx_iff_getElem?.mpr h

private theorem value?_term {i : Nat} {probe : BedProbe α} (h : m.probes[i]? = some probe)
    {weight : α}
    (target : Scalar.isFinite probe.target = true) (finite : Scalar.isFinite weight = true) :
    (Setup.term i probe weight).value? (assigned m.assignments) = some 0 := by
  obtain ⟨w, hw⟩ := PrintedScalar.exists_roundTo 4 weight finite
  unfold HeightTerm.value? Setup.term
  simp only [hw, assigned_probe h]
  by_cases hneg : probe.target < 0.0
  · obtain ⟨d, d', hd, hd', hvalue⟩ := Scalar.coordinateNumeral_neg target hneg
    have htarget : targetValue probe = d.value := by
      rw [targetValue, hd]
      rfl
    simp [hneg, hd', Numeral.value?, htarget, hvalue]
  · obtain ⟨d, hd⟩ := Scalar.exists_coordinateNumeral target
    have htarget : targetValue probe = d.value := by
      rw [targetValue, hd]
      rfl
    simp [hneg, hd, Numeral.value?, htarget]

section Corrections

variable {setup : Setup α} {world : Point α} {z : α}

private theorem value?_of_mem_terms (hprobes : setup.probes = m.probes)
    (targets : ∀ probe ∈ m.probes, Scalar.isFinite probe.target = true)
    (weights : ∀ w ∈ setup.weights world, Scalar.isFinite w.2 = true) :
    ∀ t ∈ (setup.heightExpr world z).terms, t.value? (assigned m.assignments) = some 0 := by
  intro t ht
  obtain ⟨⟨i, probe, w⟩, hmem, rfl⟩ := List.mem_map.mp ht
  obtain ⟨⟨j, v⟩, hweight, hsome⟩ := List.mem_filterMap.mp hmem
  obtain ⟨found, hfound, heq⟩ := Option.map_eq_some_iff.mp hsome
  obtain ⟨rfl, rfl, rfl⟩ := heq
  rw [hprobes] at hfound
  exact value?_term hfound (targets _ (List.mem_of_getElem? hfound)) (weights _ hweight)

omit [PrintedScalar α] in
private theorem value?_of_terms {parameter : Nat → Option ℚ} {height : ℚ}
    (hheight : (Scalar.coordinateNumeral z).value? = some height)
    (terms : ∀ t ∈ (setup.heightExpr world z).terms, t.value? parameter = some 0) :
    (setup.heightExpr world z).value? parameter = some height := by
  have hnominal : (setup.heightExpr world z).nominal.value? = some height := hheight
  rw [HeightExpr.value?, mapM_eq_some terms, hnominal]
  simp

end Corrections

end Model

namespace Setup

variable {α : Type} [Scalar α]

private theorem probes_foldl_nested (placements : List (Placement α)) (s : Setup α) :
    (placements.foldl Setup.nested s).probes = s.probes := by
  induction placements generalizing s with
  | nil => rfl
  | cons placement placements ih => exact ih _

end Setup

open Formula (evaluate?)

/-- The file of nominal heights cancels the correction of the bed. It assigns a number to each
parameter that heights are written with, and with these numbers a machine computes for every height,
wherever it is and however paths are placed in each other, the number that the height is printed as
without probes. -/
theorem nominalHeights_cancel {α : Type} [Scalar α] [PrintedScalar α] {lib : Library α}
    {key : ModelKey} {m : Model α} (found : Build.HasModel lib key m) :
    ∃ assignments, assignments? m.nominalHeights.toList = some assignments ∧
      ∀ (placement : Placement α) (inner : List (Placement α)) (world : Point α) (z : α),
        let setup := inner.foldl Setup.nested ⟨placement, m.probes⟩
        Scalar.isFinite z = true → (∀ w ∈ setup.weights world, Scalar.isFinite w.2 = true) →
          (∃ height, Decimal.number? (Scalar.coordinate z).toList = some height ∧
            evaluate? (assigned assignments) (setup.heightText world z).toList = some height) ∧
          ∀ t ∈ (setup.heightExpr world z).terms,
            (assigned assignments (probeVariable t.probe)).isSome = true := by
  have htargets := found.isFinite_target
  refine ⟨m.assignments, Model.assignments?_nominalHeights htargets, ?_⟩
  intro placement inner world z setup finite weights
  have hprobes : setup.probes = m.probes := Setup.probes_foldl_nested inner _
  have hterms := Model.value?_of_mem_terms (z := z) hprobes htargets weights
  obtain ⟨d, hd⟩ := Scalar.exists_coordinateNumeral finite
  have hheight : (Scalar.coordinateNumeral z).value? = some d.value := by
    rw [hd]
    rfl
  refine ⟨⟨d.value, Numeral.number?_text hheight, ?_⟩, fun t ht => ?_⟩
  · exact HeightExpr.evaluate?_text (Model.value?_of_terms hheight hterms)
  · exact HeightTerm.isSome_of_value? (hterms t ht)

section Bed

def bed : Library Float :=
  let point := Build.pointPath "Bed"
  let probed := point.addElement ⟨.probe ⟨10.0, 0.0⟩, none, .ofList [('Z', "-1.5")]⟩
  (Library.ofLayers .standard [probed.addElement
    ⟨.probe ⟨0.0, 5.0⟩, none, .ofList [('Z', "0.0004")]⟩]).1

def bedSetup (m : Model Float) : Setup Float :=
  [Placement.identity].foldl Setup.nested ⟨.identity, m.probes⟩

set_option maxRecDepth 10000 in
theorem nominalHeights_cancel_bed :
    ∃ key m, Build.HasModel bed key m ∧ m.probes.length = 2 ∧
      Scalar.isFinite (-0.25 : Float) = true ∧
      (∀ w ∈ (bedSetup m).weights ⟨3.0, 4.0⟩, Scalar.isFinite w.2 = true) ∧
      ∃ assignments, assignments? m.nominalHeights.toList = some assignments ∧
        ∃ height, Decimal.number? (Scalar.coordinate (-0.25 : Float)).toList = some height ∧
          evaluate? (assigned assignments) ((bedSetup m).heightText ⟨3.0, 4.0⟩ (-0.25)).toList =
            some height := by
  have run : ((Build.roots bed).run Build.initial).1.map (fun m => (m.probes.length,
      ((bedSetup m).weights ⟨3.0, 4.0⟩).all fun w => Scalar.isFinite w.2)) = [(2, true)] := by
    decide +kernel
  have finite : Scalar.isFinite (-0.25 : Float) = true := by decide +kernel
  obtain ⟨m, hroots, hm⟩ := List.map_eq_singleton_iff.mp run
  obtain ⟨hlength, hall⟩ := Prod.mk.inj hm
  have weights : ∀ w ∈ (bedSetup m).weights ⟨3.0, 4.0⟩, Scalar.isFinite w.2 = true :=
    List.all_eq_true.mp hall
  have hmem : m ∈ ((Build.roots bed).run Build.initial).1 := by simp [hroots]
  obtain ⟨name, -, found⟩ := Build.exists_hasModel_of_mem_roots hmem
  obtain ⟨assignments, hfile, hcancel⟩ := nominalHeights_cancel found
  have hbed := hcancel .identity [.identity] ⟨3.0, 4.0⟩ (-0.25) finite weights
  exact ⟨_, m, found, hlength, finite, weights, assignments, hfile, hbed.1⟩

end Bed

end Toolpath
