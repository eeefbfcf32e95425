import Toolpath.Builder
import Toolpath.Job.Format
import Toolpath.Json.Reading

/-!
Jobs: the defaults and all layers of a drawing, and the programs of the paths that no other path
places.
-/

set_option autoImplicit false

namespace Toolpath

structure Job (α : Type) where
  defaults : Defaults α
  layers : List (Layer α)

structure CompiledPath (α : Type) where
  program : Program α
  /-- Measures the bed probes, if the path has any. -/
  probing : Option (Program α)
  /-- Stands for a measurement of a flat bed, if the path has bed probes. -/
  nominalHeights : Option String

namespace Job

variable {α : Type} [Scalar α]

def ofJson? (value : Json) : Option (Job α) := do
  match ← value.fields? ["defaults", "paths"] with
  | [defaults, layers] =>
    return ⟨← Json.orDefault .standard Defaults.ofJson? defaults,
      ← Json.orDefault [] (Json.list? (Layer.ofJson? (Json.maxDepth - 2))) layers⟩
  | _ => none

def ofText? (text : String) : Option (Job α) := do ofJson? (← Json.ofText? text)

def toJson (j : Job α) : Json :=
  .object [("defaults", j.defaults.toJson), ("paths", .array (j.layers.map Layer.toJson))]

def withProbing (model : Model α) (program : Program α) :
    Except (EmitError α) (CompiledPath α) := do
  let probing ← model.probing
  return ⟨program, probing, probing.map fun _ => model.nominalHeights⟩

def compileModel (done : List (CompiledPath α)) (report : Report α) (model : Model α) :
    List (CompiledPath α) × Report α :=
  let refused (report : Report α) (e : EmitError α) : Report α :=
    report.add (.error (.ofPath model.name) "{0}" [e.message])
  match model.generate with
  | .error e => (done, refused report e)
  | .ok program =>
    let report := report.note program.summary
    match withProbing model program with
    | .ok path => (done ++ [path], report)
    | .error e => (done, refused report e)

/-- Compiles every path that no other path places. Paths with errors are reported and left out. -/
def compile (job : Job α) (report : Report α) : List (CompiledPath α) × Report α :=
  let (lib, problems) := Library.ofLayers job.defaults job.layers
  let (models, state) := (Build.roots lib).run Build.initial
  let report := (report.addAll problems).addAll state.problems
  models.foldl (fun (done, report) model => compileModel done report model) ([], report)

end Job

end Toolpath
