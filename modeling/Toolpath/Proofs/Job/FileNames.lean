import Mathlib.Data.List.Nodup
import Toolpath.Job.Run
import Toolpath.Proofs.Builder.Names
import Toolpath.Proofs.Job.Compiled

/-!
The names of the files of a job. A file name is made of the name of a path, in which some characters
are replaced, and of what the file is for. So the names of two paths may give one file; it is said
here when they do not.
-/

set_option autoImplicit false

namespace Toolpath

private theorem FileName.output_inj {jobFile : String} {a b : PathName} {x y : String} :
    output jobFile a x = output jobFile b y ↔ a.fileStem ++ x = b.fileStem ++ y := by
  have houtput (name : PathName) (suffix : String) : output jobFile name suffix =
      (split jobFile).1 ++ stem (split jobFile).2 ++ "_" ++ (name.fileStem ++ suffix) ++ ".nc" := by
    unfold output
    simp only [String.append_assoc]
  rw [houtput, houtput]
  simp

private theorem append_probe_ne (s t : String) : s ++ "_probe" ≠ t ++ "_heights" := by
  intro h
  have hlast := congrArg (fun text => text.toList.getLast?) h
  simp [String.toList_append] at hlast

/-- A name that is kept as a part of file names, and does not end like a probing program or a file
of heights. -/
structure PathName.Plain (name : PathName) : Prop where
  kept : name.fileStem = name.text
  probe : ¬ "_probe".toList <:+ name.text.toList
  heights : ¬ "_heights".toList <:+ name.text.toList

instance (name : PathName) : Decidable name.Plain :=
  decidable_of_iff (name.fileStem = name.text ∧ ¬ "_probe".toList <:+ name.text.toList ∧
    ¬ "_heights".toList <:+ name.text.toList)
    ⟨fun h => ⟨h.1, h.2.1, h.2.2⟩, fun h => ⟨h.1, h.2, h.3⟩⟩

private theorem PathName.beq_of_text_eq {a b : PathName} (h : a.text = b.text) :
    (a == b) = true := by
  rw [beq_iff_groups_eq, groups, groups, key, key, h]

namespace CompiledPath

variable {α : Type}

def stem (p : CompiledPath α) : String := p.program.name.fileStem

def suffixes (p : CompiledPath α) : List String :=
  [""] ++ (p.probing.map fun _ => "_probe").toList ++
    (p.nominalHeights.map fun _ => "_heights").toList

/-- A further file of a path has the name of the other path's program. -/
def Takes (p q : CompiledPath α) : Prop :=
  p.probing.isSome = true ∧ q.stem = p.stem ++ "_probe" ∨
    p.nominalHeights.isSome = true ∧ q.stem = p.stem ++ "_heights"

/-- The paths have different files. -/
structure Apart (p q : CompiledPath α) : Prop where
  stems : p.stem ≠ q.stem
  left : ¬ p.Takes q
  right : ¬ q.Takes p

private theorem mem_suffixes (p : CompiledPath α) (x : String) :
    x ∈ p.suffixes ↔ x = "" ∨ p.probing.isSome = true ∧ x = "_probe" ∨
      p.nominalHeights.isSome = true ∧ x = "_heights" := by
  cases hprobing : p.probing <;> cases hheights : p.nominalHeights <;>
    simp [suffixes, hprobing, hheights]

private theorem nodup_suffixes (p : CompiledPath α) : p.suffixes.Nodup := by
  cases hprobing : p.probing <;> cases hheights : p.nominalHeights <;>
    simp [suffixes, hprobing, hheights]

private theorem takes_iff (p q : CompiledPath α) :
    p.Takes q ↔ ∃ x ∈ p.suffixes, x ≠ "" ∧ q.stem = p.stem ++ x := by
  constructor
  · rintro (⟨hsome, hstem⟩ | ⟨hsome, hstem⟩)
    · exact ⟨"_probe", (p.mem_suffixes _).mpr (Or.inr (Or.inl ⟨hsome, rfl⟩)), by decide, hstem⟩
    · exact ⟨"_heights", (p.mem_suffixes _).mpr (Or.inr (Or.inr ⟨hsome, rfl⟩)), by decide, hstem⟩
  · rintro ⟨x, hx, hne, hstem⟩
    rcases (p.mem_suffixes x).mp hx with rfl | ⟨hsome, rfl⟩ | ⟨hsome, rfl⟩
    · exact absurd rfl hne
    · exact Or.inl ⟨hsome, hstem⟩
    · exact Or.inr ⟨hsome, hstem⟩

private theorem stem_eq_of_append_eq {p q : CompiledPath α} {x y : String} (hx : x ∈ p.suffixes)
    (hy : y ∈ q.suffixes) (hxne : x ≠ "") (hyne : y ≠ "") (h : p.stem ++ x = q.stem ++ y) :
    p.stem = q.stem := by
  rcases ((p.mem_suffixes x).mp hx).resolve_left hxne with ⟨-, rfl⟩ | ⟨-, rfl⟩ <;>
    rcases ((q.mem_suffixes y).mp hy).resolve_left hyne with ⟨-, rfl⟩ | ⟨-, rfl⟩
  · exact (String.append_left_inj _).mp h
  · exact absurd h (append_probe_ne _ _)
  · exact absurd h.symm (append_probe_ne _ _)
  · exact (String.append_left_inj _).mp h

private theorem apart_iff (p q : CompiledPath α) :
    p.Apart q ↔ ∀ x ∈ p.suffixes, ∀ y ∈ q.suffixes, p.stem ++ x ≠ q.stem ++ y := by
  have hprogram (r : CompiledPath α) : "" ∈ r.suffixes := (r.mem_suffixes "").mpr (Or.inl rfl)
  constructor
  · rintro ⟨hstems, hleft, hright⟩ x hx y hy heq
    by_cases hxne : x = ""
    · rw [hxne, String.append_empty] at heq
      by_cases hyne : y = ""
      · rw [hyne, String.append_empty] at heq
        exact hstems heq
      · exact hright ((q.takes_iff p).mpr ⟨y, hy, hyne, heq⟩)
    · by_cases hyne : y = ""
      · rw [hyne, String.append_empty] at heq
        exact hleft ((p.takes_iff q).mpr ⟨x, hx, hxne, heq.symm⟩)
      · exact hstems (stem_eq_of_append_eq hx hy hxne hyne heq)
  · intro h
    refine ⟨fun heq => ?_, fun htakes => ?_, fun htakes => ?_⟩
    · exact h "" (hprogram p) "" (hprogram q) (by rw [heq])
    · obtain ⟨x, hx, -, hstem⟩ := (p.takes_iff q).mp htakes
      exact h x hx "" (hprogram q) (by rw [String.append_empty, hstem])
    · obtain ⟨y, hy, -, hstem⟩ := (q.takes_iff p).mp htakes
      exact h "" (hprogram p) y hy (by rw [String.append_empty, hstem])

private theorem Apart.of_plain {p q : CompiledPath α}
    (distinct : (p.program.name == q.program.name) = false)
    (hp : p.program.name.Plain) (hq : q.program.name.Plain) : p.Apart q := by
  have hnot {r t : CompiledPath α} (ht : t.program.name.Plain) : ¬ r.Takes t := by
    rintro (⟨-, hstem⟩ | ⟨-, hstem⟩)
    · refine ht.probe ⟨r.stem.toList, ?_⟩
      rw [← ht.kept, ← String.toList_append, ← hstem]
      rfl
    · refine ht.heights ⟨r.stem.toList, ?_⟩
      rw [← ht.kept, ← String.toList_append, ← hstem]
      rfl
  refine ⟨fun hstems => ?_, hnot hq, hnot hp⟩
  have htext : p.program.name.text = q.program.name.text := by
    rw [← hp.kept, ← hq.kept]
    exact hstems
  rw [PathName.beq_of_text_eq htext] at distinct
  cases distinct

end CompiledPath

namespace Job

variable {α : Type}

open CompiledPath (Apart)

private theorem outputs_names (jobFile date : String) (path : CompiledPath α) :
    (outputs jobFile date path).map Prod.fst =
      path.suffixes.map (FileName.output jobFile path.program.name) := by
  cases hprobing : path.probing <;> cases hheights : path.nominalHeights <;>
    simp [outputs, CompiledPath.suffixes, hprobing, hheights]

private theorem nodup_outputs (jobFile date : String) (path : CompiledPath α) :
    ((outputs jobFile date path).map Prod.fst).Nodup := by
  rw [outputs_names]
  refine List.Nodup.map (fun x y h => ?_) path.nodup_suffixes
  exact (String.append_right_inj _).mp (FileName.output_inj.mp h)

private theorem disjoint_outputs_iff (jobFile date : String) (p q : CompiledPath α) :
    List.Disjoint ((outputs jobFile date p).map Prod.fst)
      ((outputs jobFile date q).map Prod.fst) ↔ p.Apart q := by
  rw [outputs_names, outputs_names, CompiledPath.apart_iff]
  constructor
  · intro h x hx y hy heq
    refine h (List.mem_map_of_mem hx) ?_
    rw [FileName.output_inj.mpr heq]
    exact List.mem_map_of_mem hy
  · intro h file hp hq
    obtain ⟨x, hx, rfl⟩ := List.mem_map.mp hp
    obtain ⟨y, hy, heq⟩ := List.mem_map.mp hq
    exact h x hx y hy (FileName.output_inj.mp heq.symm)

def files (jobFile date : String) (paths : List (CompiledPath α)) : List (String × String) :=
  paths.flatMap (outputs jobFile date)

theorem nodup_files_iff (jobFile date : String) (paths : List (CompiledPath α)) :
    ((files jobFile date paths).map Prod.fst).Nodup ↔ paths.Pairwise Apart := by
  rw [files, List.map_flatMap, List.nodup_flatMap]
  refine (and_iff_right fun path _ => nodup_outputs jobFile date path).trans ?_
  exact List.Pairwise.iff (disjoint_outputs_iff jobFile date)

variable [Scalar α]

private theorem names_filterMap_compiled? (models : List (Model α)) :
    ((models.filterMap compiled?).map fun path => path.program.name).Sublist
      (models.map Model.name) := by
  induction models with
  | nil => exact .slnil
  | cons m models ih =>
    cases hpath : compiled? m with
    | none =>
      rw [List.filterMap_cons_none hpath]
      exact ih.cons m.name
    | some path =>
      rw [List.filterMap_cons_some hpath, List.map_cons, List.map_cons, name_of_compiled? hpath]
      exact ih.cons_cons m.name

private theorem compile_names (job : Job α) (report : Report α) :
    ((job.compile report).1.map fun path => path.program.name).Sublist
      (Library.ofLayers job.defaults job.layers).1.roots := by
  rw [fst_compile]
  exact (names_filterMap_compiled? _).trans
    (Build.names_sublist_roots (Library.distinct_ofLayers job.defaults job.layers))

theorem pairwise_apart_of_plain (job : Job α) (report : Report α)
    (plain : ∀ name ∈ (Library.ofLayers job.defaults job.layers).1.roots, name.Plain) :
    (job.compile report).1.Pairwise Apart := by
  have hnames : (Library.ofLayers job.defaults job.layers).1.names.Pairwise
      fun a b => (a == b) = false := by
    rw [Library.names, List.pairwise_map]
    exact Library.distinct_ofLayers job.defaults job.layers
  have hcompiled := hnames.sublist ((compile_names job report).trans List.filter_sublist)
  refine (List.pairwise_map.mp hcompiled).imp_of_mem fun {p q} hp hq hother => ?_
  have hplain {path : CompiledPath α} (hpath : path ∈ (job.compile report).1) :
      path.program.name.Plain :=
    plain _ ((compile_names job report).subset (List.mem_map_of_mem hpath))
  exact .of_plain hother (hplain hp) (hplain hq)

end Job

end Toolpath
