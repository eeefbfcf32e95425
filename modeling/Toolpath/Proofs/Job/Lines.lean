import Toolpath.Proofs.Builder.Names
import Toolpath.Proofs.Job.Compiled
import Toolpath.Proofs.Model.Lines

/-!
The lines of the programs of a job. What is compiled is the program of a model that a builder found,
and every layer to which its path leads is placed in it and named in a comment; so the program is
line by line exactly if the names of these layers are on one line each. A name is only trimmed at
its ends: one with a break inside of it ends its comment early, and the rest is a line by itself.
-/

set_option autoImplicit false

namespace Toolpath

variable {α : Type} [Scalar α]

private theorem Build.exists_comment_of_includes {lib : Library α} {key : ModelKey} {m : Model α}
    {n : Nat}
    (h : expand lib n key = some m) {layer : Layer α} (includes : Includes lib key.name layer)
    {setup : Setup α} {ts : List (Model.Task α)} (tasks : m.tasks setup = .ok ts) :
    layer.name = m.name ∨
      ∃ settings, Model.Task.comment settings ("sub-path " ++ layer.name.text) ∈ ts := by
  obtain ⟨placed, hreach, hlayer⟩ := includes
  induction n using Nat.strong_induction_on generalizing key m setup ts with
  | _ n ih =>
    rcases Relation.ReflTransGen.cases_head hreach with hself | ⟨next, hstep, hrest⟩
    · obtain ⟨own, hown, hname⟩ := exists_layer_of_expand h
      rw [hself, hlayer] at hown
      obtain rfl := Option.some.inj hown
      exact Or.inl hname.symm
    · obtain ⟨k, hk, p, hp, ⟨start, stop, hkind⟩, inside, child, t, hplaces, rfl, hchild⟩ :=
        placed_of_references h hstep
      obtain ⟨hcomment, inner, hinner, hsubset⟩ := Model.subset_of_tasks tasks hp hkind hplaces
      rcases ih k hk hchild hinner hrest with hname | ⟨settings, hdeeper⟩
      · rw [hname]
        exact Or.inr ⟨p.settings, hcomment⟩
      · exact Or.inr ⟨settings, hsubset hdeeper⟩

private theorem Build.HasModel.oneLine_of_lineByLine {lib : Library α} {key : ModelKey}
    {m : Model α} (h : HasModel lib key m) {p : Program α} (generated : m.generate = .ok p)
    (lines : p.LineByLine) {layer : Layer α} (includes : Includes lib key.name layer) :
    OneLine layer.name.text := by
  have hquoted (front : String) (hmem : Record.comment (front ++ layer.name.text) ∈ p.records) :
      OneLine layer.name.text := by
    have hline := lines.oneLine _ hmem
    simp only [OneLine.comment_iff, OneLine.append_iff] at hline
    exact hline.2
  obtain ⟨n, hn⟩ := h
  obtain ⟨hpath, ts, htasks, hcomments⟩ := Model.mem_records_of_generate generated
  rcases exists_comment_of_includes hn includes htasks with hself | ⟨settings, hcomment⟩
  · exact hquoted "path " (hself ▸ hpath)
  · exact hquoted "sub-path " (hcomments settings _ hcomment)

namespace Job

def Compiled (models : List (Model α)) (path : CompiledPath α) : Prop :=
  ∃ m ∈ models, m.generate = .ok path.program ∧ m.probing = .ok path.probing

private theorem compiled_of_mem_compile {job : Job α} {report : Report α} {path : CompiledPath α}
    (h : path ∈ (job.compile report).1) :
    Compiled ((Build.roots (Library.ofLayers job.defaults job.layers).1).run Build.initial).1
      path := by
  rw [fst_compile] at h
  obtain ⟨m, hm, hpath⟩ := List.mem_filterMap.mp h
  exact ⟨m, hm, programs_of_compiled? hpath⟩

/-- Every line is one record, exactly if names are on one line. The program of a compiled path has
one line for each record, in the order of the records, and those lines that do not begin with the
sign of comments are of records that are no comments, if and only if there is no break in the names
of the layers of the path and of all paths placed in it, at any depth; and so for the probing
program and the name of the path. -/
theorem lineByLine_iff (job : Job α) (report : Report α) (path : CompiledPath α)
    (compiled : path ∈ (job.compile report).1) :
    (path.program.LineByLine ↔
      ∀ layer, Build.Includes (Library.ofLayers job.defaults job.layers).1 path.program.name layer →
        OneLine layer.name.text) ∧
    ∀ p, path.probing = some p → (p.LineByLine ↔ OneLine path.program.name.text) := by
  obtain ⟨m, hm, hprogram, hprobing⟩ := compiled_of_mem_compile compiled
  have hname : path.program.name = m.name := by
    obtain ⟨records, -, h⟩ := Model.bind_eq_ok.mp hprogram
    exact congrArg Program.name (Except.ok.inj h).symm
  obtain ⟨bindings, hmodel⟩ := Build.hasModel_of_mem_roots hm
  rw [hname]
  refine ⟨⟨fun hlines layer hincludes => ?_, fun hlayers => ?_⟩, fun p hp => ?_⟩
  · exact hmodel.oneLine_of_lineByLine hprogram hlines hincludes
  · refine Model.lineByLine_of_generate (fun inner hinner => ?_) hprogram
    obtain ⟨layer, hincludes, hlayer⟩ := hmodel.exists_layer_of_within hinner
    rw [hlayer]
    exact hlayers layer hincludes
  · exact Model.lineByLine_probing_iff (hp ▸ hprobing)

def probedPlate : Job Float where
  defaults := .standard
  layers := Build.plate.modify 0 fun layer =>
    layer.addElement ⟨.probe .origin, none, .ofList [('Z', "1.5")]⟩

set_option maxRecDepth 10000 in
theorem lineByLine_probedPlate :
    ∃ path ∈ (probedPlate.compile .empty).1, path.program.LineByLine ∧
      ∃ p, path.probing = some p ∧ p.LineByLine := by
  have run : (probedPlate.compile .empty).1.map (fun path =>
      (path.probing.isSome, decide (OneLine path.program.name.text))) = [(true, true)] := by
    decide +kernel
  have layers : ∀ layer ∈ (Library.ofLayers probedPlate.defaults probedPlate.layers).1.layers,
      OneLine layer.name.text := by decide +kernel
  obtain ⟨path, hcompile, hpath⟩ := List.map_eq_singleton_iff.mp run
  obtain ⟨hprobing, hname⟩ := Prod.mk.inj hpath
  obtain ⟨p, hp⟩ := Option.isSome_iff_exists.mp hprobing
  have compiled : path ∈ (probedPlate.compile .empty).1 := by simp [hcompile]
  obtain ⟨hprogram, hprobe⟩ := lineByLine_iff probedPlate .empty path compiled
  have hlines := hprogram.mpr fun layer hincludes => layers layer hincludes.mem_layers
  exact ⟨path, compiled, hlines, p, hp, (hprobe p hp).mpr (of_decide_eq_true hname)⟩

def brokenName : Job Float := ⟨.standard, [Build.pointPath "a\nG00 Z-50"]⟩

set_option maxRecDepth 10000 in
theorem command_in_brokenName :
    ∃ path ∈ (brokenName.compile .empty).1,
      path.program.lines.length = path.program.records.length + 1 ∧
      "G00 Z-50".toList ∈ path.program.lines ∧
      ∀ r ∈ path.program.records, r.text ≠ "G00 Z-50" := by
  decide +kernel

end Job

end Toolpath
