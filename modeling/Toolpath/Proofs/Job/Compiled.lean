import Toolpath.Job
import Toolpath.Proofs.Model.Tasks

/-!
What a job compiles. Problems go to the report, but they decide nothing: the compiled paths are
those of the models of the paths that no path places, in their order, and of each model by itself.
-/

set_option autoImplicit false

namespace Toolpath.Job

variable {α : Type} [Scalar α]

def compiled? (m : Model α) : Option (CompiledPath α) :=
  match m.generate with
  | .error _ => none
  | .ok program =>
    match withProbing m program with
    | .error _ => none
    | .ok path => some path

private theorem fst_compileModel (done : List (CompiledPath α)) (report : Report α) (m : Model α) :
    (compileModel done report m).1 = done ++ (compiled? m).toList := by
  unfold compileModel compiled?
  cases m.generate with
  | error e => simp
  | ok program =>
    dsimp only
    cases withProbing m program <;> simp

private theorem fst_foldl_compileModel (models : List (Model α)) (done : List (CompiledPath α))
    (report : Report α) :
    (models.foldl (fun (done, report) m => compileModel done report m) (done, report)).1 =
      done ++ models.filterMap compiled? := by
  induction models generalizing done report with
  | nil => simp
  | cons m models ih =>
    refine (ih (compileModel done report m).1 (compileModel done report m).2).trans ?_
    rw [fst_compileModel, List.append_assoc]
    cases hm : compiled? m <;> simp [hm]

theorem fst_compile (job : Job α) (report : Report α) :
    (job.compile report).1 =
      ((Build.roots (Library.ofLayers job.defaults job.layers).1).run
        Build.initial).1.filterMap compiled? :=
  fst_foldl_compileModel _ [] _

theorem programs_of_compiled? {m : Model α} {path : CompiledPath α} (h : compiled? m = some path) :
    m.generate = .ok path.program ∧ m.probing = .ok path.probing := by
  unfold compiled? at h
  split at h
  · cases h
  · next program hprogram =>
    split at h
    · cases h
    · next compiled hcompiled =>
      obtain ⟨probing, hprobing, hpath⟩ := Model.bind_eq_ok.mp hcompiled
      obtain rfl := Except.ok.inj hpath
      obtain rfl := Option.some.inj h
      exact ⟨hprogram, hprobing⟩

theorem name_of_compiled? {m : Model α} {path : CompiledPath α} (h : compiled? m = some path) :
    path.program.name = m.name := by
  obtain ⟨records, -, hprogram⟩ := Model.bind_eq_ok.mp (programs_of_compiled? h).1
  exact congrArg Program.name (Except.ok.inj hprogram).symm

end Toolpath.Job
