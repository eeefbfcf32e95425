import Mathlib.Logic.Function.Basic
import Toolpath.Proofs.Job.FileNames

/-!
The files after a run. A run that succeeds writes the files of its compiled paths one after the
other; so each of them holds what was made for its path, unless a later one has the same name.
-/

set_option autoImplicit false

namespace Toolpath

/-- Files by their names. -/
abbrev FileTable := String → Option String

namespace FileTable

def write (table : FileTable) (entry : String × String) : FileTable :=
  Function.update table entry.1 (some entry.2)

def writeAll (table : FileTable) (entries : List (String × String)) : FileTable :=
  entries.foldl write table

private theorem writeAll_append (table : FileTable) (first later : List (String × String)) :
    table.writeAll (first ++ later) = (table.writeAll first).writeAll later :=
  List.foldl_append

private theorem writeAll_of_not_mem (table : FileTable) {entries : List (String × String)}
    {file : String}
    (h : file ∉ entries.map Prod.fst) : table.writeAll entries file = table file := by
  induction entries generalizing table with
  | nil => rfl
  | cons entry entries ih =>
    rw [List.map_cons, List.mem_cons, not_or] at h
    exact (ih (table.write entry) h.2).trans (Function.update_of_ne h.1 _ _)

private theorem writeAll_of_nodup (table : FileTable) {entries : List (String × String)}
    (nodup : (entries.map Prod.fst).Nodup) {entry : String × String} (h : entry ∈ entries) :
    table.writeAll entries entry.1 = some entry.2 := by
  induction entries generalizing table with
  | nil => cases h
  | cons first entries ih =>
    rw [List.map_cons, List.nodup_cons] at nodup
    rcases List.mem_cons.mp h with rfl | h
    · exact (writeAll_of_not_mem _ nodup.1).trans (Function.update_self _ _ _)
    · exact ih (table.write first) nodup.2 h

/-- A host with such files, of which some cannot be written. -/
def host (refusal : String → Option String) : Host (StateM FileTable) where
  read file := do
    let table ← get
    return (table file).elim (.error "No such file or directory (os error 2)") .ok
  write file text :=
    match refusal file with
    | some reason => return .error reason
    | none => do
      modify fun table => table.write (file, text)
      return .ok ()

end FileTable

namespace Job

open CompiledPath (Apart)

variable {α : Type}

section Runs

open FileTable (host)

variable {refusal : String → Option String}

private theorem run_bind {β γ : Type} (x : StateM FileTable β) (f : β → StateM FileTable γ)
    (table : FileTable) : (x >>= f).run table = (f (x.run table).1).run (x.run table).2 := rfl

private theorem run_read (file : String) (table : FileTable) :
    ((host refusal).read file).run table =
      ((table file).elim (.error "No such file or directory (os error 2)") .ok, table) := rfl

private theorem run_write (file text : String) (table : FileTable) :
    ((host refusal).write file text).run table =
      match refusal file with
      | some reason => (.error reason, table)
      | none => (.ok (), table.write (file, text)) := by
  unfold host
  dsimp only
  split <;> rfl

private theorem table_of_writeAll {entries : List (String × String)} {table after : FileTable}
    (h : (writeAll (host refusal) entries).run table = (.ok (), after)) :
    after = table.writeAll entries := by
  induction entries generalizing table with
  | nil => exact (Prod.mk.inj h).2.symm
  | cons entry entries ih =>
    rw [writeAll, run_bind, run_write] at h
    cases hrefusal : refusal entry.1 with
    | some reason =>
      rw [hrefusal] at h
      cases (Prod.mk.inj h).1
    | none =>
      rw [hrefusal] at h
      exact ih h

variable [Scalar α] {jobFile date : String}

private theorem table_of_writePath {result result' : RunResult α} {report report' : Report α}
    {path : CompiledPath α} {table after : FileTable}
    (h : (writePath (host refusal) jobFile date result report path).run table =
      ((.ok result', report'), after)) :
    after = table.writeAll (outputs jobFile date path) ∧
      result'.written = result.written ++ (outputs jobFile date path).map Prod.fst := by
  rw [writePath, run_bind] at h
  cases hfirst : (writeAll (host refusal) ((outputs jobFile date path).take 1)).run table with
  | mk outcome between =>
    rw [hfirst] at h
    cases outcome with
    | error reason => cases h
    | ok =>
      dsimp only at h
      rw [run_bind] at h
      cases hlater : (writeAll (host refusal) ((outputs jobFile date path).drop 1)).run between with
      | mk outcome later =>
        rw [hlater] at h
        cases outcome with
        | error reason => cases h
        | ok =>
          obtain ⟨hresult, rfl⟩ := Prod.mk.inj h
          obtain rfl := Except.ok.inj (Prod.mk.inj hresult).1
          refine ⟨?_, rfl⟩
          rw [table_of_writeAll hlater, table_of_writeAll hfirst, ← FileTable.writeAll_append,
            List.take_append_drop]

private theorem table_of_writePaths {paths : List (CompiledPath α)} {result result' : RunResult α}
    {report report' : Report α} {table after : FileTable}
    (h : (writePaths (host refusal) jobFile date paths result report).run table =
      ((.ok result', report'), after)) :
    after = table.writeAll (files jobFile date paths) ∧
      result'.written = result.written ++ (files jobFile date paths).map Prod.fst := by
  induction paths generalizing result report table with
  | nil =>
    obtain ⟨hresult, rfl⟩ := Prod.mk.inj h
    obtain rfl := Except.ok.inj (Prod.mk.inj hresult).1
    exact ⟨rfl, (List.append_nil _).symm⟩
  | cons path paths ih =>
    rw [writePaths, run_bind] at h
    cases hpath : (writePath (host refusal) jobFile date result report path).run table with
    | mk outcome between =>
      obtain ⟨outcome, report⟩ := outcome
      rw [hpath] at h
      cases outcome with
      | error reason => cases h
      | ok middle =>
        obtain ⟨rfl, hmiddle⟩ := table_of_writePath hpath
        obtain ⟨rfl, hwritten⟩ := ih h
        refine ⟨(FileTable.writeAll_append _ _ _).symm, ?_⟩
        rw [hwritten, hmiddle, List.append_assoc, ← List.map_append]
        rfl

private theorem table_of_runFile {result : RunResult α} {report report' : Report α} {text : String}
    {job : Job α} {table after : FileTable} (found : table jobFile = some text)
    (read : ofText? text = some job)
    (h : (runFile (host refusal) jobFile date report).run table = ((.ok result, report'), after)) :
    after = table.writeAll (files jobFile date (job.compile report).1) ∧
      result.written = (files jobFile date (job.compile report).1).map Prod.fst := by
  rw [runFile, run_bind, run_read, found] at h
  dsimp only [Option.elim] at h
  rw [read] at h
  exact table_of_writePaths h

end Runs

/-- No program overwrites another, exactly if no two compiled paths have file names in common: if
their names have different stems, and no stem is that of another path, which has bed probes, with
the ending of one of its further files. So it is for names that are kept in file names and do not
have such an ending. Then, after a run that succeeds, every file holds what was made for its path.
-/
theorem nodup_written_iff [Scalar α] (jobFile date : String) (job : Job α) (report : Report α) :
    let paths := (job.compile report).1
    (((files jobFile date paths).map Prod.fst).Nodup ↔ paths.Pairwise Apart) ∧
    ((∀ name ∈ (Library.ofLayers job.defaults job.layers).1.roots, name.Plain) →
      paths.Pairwise Apart) ∧
    ∀ refusal table text result, table jobFile = some text → ofText? text = some job →
      let after := (runFile (FileTable.host refusal) jobFile date report).run table
      after.1.1 = .ok result →
        result.written = (files jobFile date paths).map Prod.fst ∧
        (paths.Pairwise Apart → ∀ path ∈ paths, ∀ file ∈ outputs jobFile date path,
          after.2 file.1 = some file.2) := by
  intro paths
  refine ⟨nodup_files_iff jobFile date paths, pairwise_apart_of_plain job report, ?_⟩
  intro refusal table text result found read after success
  have hrun : (runFile (FileTable.host refusal) jobFile date report).run table =
      ((.ok result, after.1.2), after.2) := by
    rw [← success]
    rfl
  obtain ⟨htable, hwritten⟩ := table_of_runFile found read hrun
  refine ⟨hwritten, fun apart path hpath file hfile => ?_⟩
  rw [htable]
  refine FileTable.writeAll_of_nodup table ((nodup_files_iff jobFile date paths).mpr apart) ?_
  exact List.mem_flatMap.mpr ⟨path, hpath, hfile⟩

section Spellings

open Binary64

private theorem eq_ok_of_toOption {ε β : Type} {x : Except ε β} {b : β} (h : x.toOption = some b) :
    x = .ok b := by
  cases x with
  | error e => cases h
  | ok c => exact congrArg Except.ok (Option.some.inj h)

/-- A job file with two paths that are points, the second one with a bed probe. -/
def pairText : String :=
  let anchors := "\"anchors\":[" ++
    "\x7b\"kind\":\"start\",\"position\":\x7b\"x\":0,\"y\":0\x7d\x7d," ++
    "\x7b\"kind\":\"end\",\"position\":\x7b\"x\":0,\"y\":0\x7d\x7d]"
  let probe := "\x7b\"type\":\"z_probe\",\"position\":\x7b\"x\":1,\"y\":0\x7d," ++
    "\"params\":\x7b\"Z\":\"1.5\"\x7d\x7d"
  "\x7b\"paths\":[\x7b\"name\":\"a\"," ++ anchors ++ "\x7d," ++
    "\x7b\"name\":\"b\"," ++ anchors ++ ",\"segments\":[" ++ probe ++ "]\x7d]\x7d"

def pairTable : FileTable := fun file => if file = "job.json" then some pairText else none

set_option maxRecDepth 20000 in
theorem nodup_written_pair :
    let after := (runFile (α := Float) (FileTable.host fun _ => none) "job.json" "2025-01-01"
      .empty).run pairTable
    ∃ (job : Job Float) (result : RunResult Float), ofText? pairText = some job ∧
      after.1.1 = .ok result ∧ result.programs = 2 ∧
      result.written = ["job_a.nc", "job_b.nc", "job_b_probe.nc", "job_b_heights.nc"] ∧
      result.written = (files "job.json" "2025-01-01" (job.compile .empty).1).map Prod.fst ∧
      (job.compile .empty).1.Pairwise Apart ∧
      ∀ path ∈ (job.compile .empty).1, ∀ file ∈ outputs "job.json" "2025-01-01" path,
        after.2 file.1 = some file.2 := by
  have hjob : (ofText? pairText).map (fun job : Job Float =>
      decide (∀ name ∈ (Library.ofLayers job.defaults job.layers).1.roots, name.Plain)) =
        some true := by decide +kernel
  have hresult : ((runFile (α := Float) (FileTable.host fun _ => none) "job.json" "2025-01-01"
      .empty).run pairTable).1.1.toOption.map (fun result => (result.programs, result.written)) =
        some (2, ["job_a.nc", "job_b.nc", "job_b_probe.nc", "job_b_heights.nc"]) := by
    decide +kernel
  have hfound : pairTable "job.json" = some pairText := if_pos rfl
  obtain ⟨job, hread, hplain⟩ := Option.map_eq_some_iff.mp hjob
  obtain ⟨result, hsuccess, hwritten⟩ := Option.map_eq_some_iff.mp hresult
  obtain ⟨hprograms, hnames⟩ := Prod.mk.inj hwritten
  have hsuccess := eq_ok_of_toOption hsuccess
  obtain ⟨-, happart, hruns⟩ := nodup_written_iff "job.json" "2025-01-01" job .empty
  have hpairwise := happart (of_decide_eq_true hplain)
  obtain ⟨hwritten, hfiles⟩ :=
    hruns (fun _ => none) pairTable pairText result hfound hread hsuccess
  exact ⟨job, result, hread, hsuccess, hprograms, hnames, hwritten, hpairwise, hfiles hpairwise⟩

/-- Two names of which one has a blank where the other has an underscore. -/
def spellings : Job Float := ⟨.standard, [Build.pointPath "a b", Build.pointPath "a_b"]⟩

set_option maxRecDepth 10000 in
/-- Both paths are compiled and written to one file, and the program of the first one is lost. -/
theorem program_overwritten :
    let paths := (spellings.compile .empty).1
    let after := (writePaths (FileTable.host fun _ => none) "job.json" "2025-01-01" paths
      ⟨[], 0, .empty⟩ .empty).run fun _ => none
    paths.map (fun path => path.program.name.text) = ["a b", "a_b"] ∧
    (files "job.json" "2025-01-01" paths).map Prod.fst = ["job_a_b.nc", "job_a_b.nc"] ∧
    after.1.1.toOption.map (fun result => result.programs) = some 2 ∧
    after.2 "job_a_b.nc" = some (banner "2025-01-01" ++
      "; path a_b\n; bit diameter 3.000 mm\nG21 G90\nG00 Z10.000\nM30\n") := by
  decide +kernel

end Spellings

end Job

end Toolpath
