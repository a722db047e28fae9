import TreeMigration.CommandLine.Execution
import TreeMigration.Proofs.FileSystem.Ancestry
import TreeMigration.Proofs.Generation.Passes
import Mathlib

/-!
Runs that stop early. A second pass that fails has finished a front part of the sources, and what it
wrote for them stays. So a source file outside the source root, which is only noticed when its turn
has come, leaves behind the outputs of all sources listed before it.

A failure for the configuration in the second pass can come from one thing only, a source whose
output has no place to go: reading, making directories and writing fail on a path
(`deliver_ne_configuration`, `index_ne_configuration`). `beforeStray` are the sources listed before
the first of these, and `StopsAtStray` says that the files are those after them, which is shown for
the run that stops (`stopsAtStray_of_configuration`).

`EndsMisconfigured` covers whole executions and prepared runs alike. Either nothing had been touched
when the error came, or the sources before the first stray one had been finished
(`EndsMisconfigured.cases`); and files that have been written count as unchanged exactly if each
output led to the same before, which is decided by the frame.
-/
namespace TreeMigration

namespace Preparation

open FileSystem

/-- A second pass that fails has finished the sources before one that could not be edited or whose
output could not be written. -/
theorem generateSources_eq_error {preparation : Preparation} {files after : FileSystem}
    {editor : Editor} {sources : List SourceFile} {failure : Failure}
    (done : preparation.generateSources files editor sources = (after, .error failure)) :
    ∃ before source later middle edited produced, sources = before ++ source :: later ∧
      preparation.generateSources files editor before = (middle, .ok (edited, produced)) ∧
      ((preparation.editSource middle edited source = .error failure ∧ after = middle) ∨
        ∃ next lines destination,
          preparation.editSource middle edited source = .ok (next, lines, destination) ∧
          deliver middle destination lines = (after, .error failure)) := by
  induction sources generalizing files editor with
  | nil => cases done
  | cons source later ih =>
    rw [generateSources] at done
    split at done
    · rename_i begun
      cases done
      exact ⟨[], source, later, _, editor, [], rfl, rfl, .inl ⟨begun, rfl⟩⟩
    · rename_i next lines destination begun
      split at done
      · rename_i changed cause delivered
        cases done
        exact ⟨[], source, later, _, editor, [], rfl, rfl,
          .inr ⟨next, lines, destination, begun, delivered⟩⟩
      · rename_i changed delivered
        generalize shape : preparation.generateSources changed next later = ending at done
        obtain ⟨last, result⟩ := ending
        cases result with
        | ok finished => cases done
        | error cause =>
          cases done
          obtain ⟨before, stuck, others, middle, edited, produced, rfl, finished, stopped⟩ :=
            ih shape
          refine ⟨source :: before, stuck, others, middle, edited, destination :: produced, rfl,
            ?_, stopped⟩
          rw [generateSources]
          simp only [begun, delivered, finished]
          rfl

/-- A delivery fails on a path, never for the configuration. -/
theorem deliver_ne_configuration {files after : FileSystem} {destination : Path}
    {lines : List Text} {what : Misconfiguration} :
    deliver files destination lines ≠ (after, .error (.configuration what)) := by
  have written : ∀ files : FileSystem,
      deliver.written destination lines files ≠ (after, .error (.configuration what)) := by
    intro files done
    unfold deliver.written at done
    split at done
    · cases done
    · rename_i failure failed
      cases done
      exact onPath_ne_configuration _ _ _ failed
  intro done
  unfold deliver at done
  split at done
  · exact written _ done
  · split at done
    · cases done
    · exact written _ done

/-- Editing a source fails for the configuration only because its output has no place to go. -/
theorem editSource_configuration {preparation : Preparation} {files : FileSystem} {editor : Editor}
    {source : SourceFile} {what : Misconfiguration}
    (failed : preparation.editSource files editor source = .error (.configuration what)) :
    preparation.destination files source = .error (.configuration what) := by
  rcases bind_eq_error.mp failed with unread | ⟨lines, -, failed⟩
  · exact absurd unread (onPath_ne_configuration _ _ _)
  · rcases bind_eq_error.mp failed with astray | ⟨destination, -, done⟩
    · exact astray
    · cases done

/-- The sources listed before the first one whose output has no place to go. -/
def beforeStray (preparation : Preparation) (files : FileSystem) : List SourceFile :=
  preparation.sources.takeWhile fun source => (preparation.destination files source).isOk

theorem isOk_of_mapped {preparation : Preparation} {files after : FileSystem}
    {sources : List SourceFile} {produced : List Path}
    (mapped : preparation.Mapped files after sources produced) :
    ∀ source ∈ sources, (preparation.destination files source).isOk = true := by
  intro source listed
  obtain ⟨destination, -, goal, -⟩ := exists_of_mem_left mapped listed
  rw [goal]
  rfl

/-- A second pass that stops for the configuration has finished the sources before the first stray
one and done nothing else. -/
theorem generateSources_configuration {preparation : Preparation} {files after : FileSystem}
    {editor : Editor} {what : Misconfiguration}
    (done : preparation.generateSources files editor preparation.sources =
      (after, .error (.configuration what)))
    (located : Located files preparation.sources) :
    ∃ edited produced, preparation.generateSources files editor (preparation.beforeStray files) =
      (after, .ok (edited, produced)) := by
  obtain ⟨before, source, later, middle, edited, produced, whole, finished, stopped⟩ :=
    generateSources_eq_error done
  rcases stopped with ⟨failed, rfl⟩ | ⟨-, lines, destination, -, delivered⟩
  · have locatedBefore : Located files before :=
      fun other listed => located other (whole ▸ List.mem_append_left _ listed)
    obtain ⟨location, content, leads⟩ := located source (by simp [whole])
    have astray := editSource_configuration failed
    rw [destination_of_grown (generateSources_confined finished).2.grown leads] at astray
    have stops : preparation.beforeStray files = before := by
      rw [beforeStray, whole, List.takeWhile_append_of_pos
        (isOk_of_mapped (generateSources_mapped finished locatedBefore))]
      simp [astray, Except.isOk, Except.toBool]
    exact ⟨edited, produced, stops ▸ finished⟩
  · exact absurd delivered deliver_ne_configuration

/-- Reading the corpus never fails for the configuration. -/
theorem index_ne_configuration {preparation : Preparation} {files : FileSystem}
    {what : Misconfiguration} : preparation.index files ≠ .error (.configuration what) := by
  have reading : ∀ (sources : List SourceFile) (indexing : Indexing),
      indexSources files indexing sources ≠ .error (.configuration what) := by
    intro sources
    induction sources with
    | nil =>
      intro indexing done
      cases done
    | cons source later ih =>
      intro indexing failed
      rcases bind_eq_error.mp failed with unread | ⟨lines, -, failed⟩
      · exact onPath_ne_configuration _ _ _ unread
      · exact ih _ failed
  exact reading _ _

/-- The files are those after the sources before the first stray one: each has its output, and
nothing else was done. -/
def StopsAtStray (preparation : Preparation) (files after : FileSystem) : Prop :=
  ∃ produced, Confined produced (produced.flatMap Path.ancestors) files after ∧
    preparation.Mapped files after (preparation.beforeStray files) produced

theorem stopsAtStray_of_configuration {preparation : Preparation} {files after : FileSystem}
    {what : Misconfiguration}
    (ran : preparation.run files = (after, .error (.configuration what))) :
    preparation.StopsAtStray files after := by
  unfold run at ran
  split at ran
  · rename_i failure unread
    cases ran
    exact absurd unread index_ne_configuration
  · rename_i indexing indexed
    obtain ⟨corpus, read, -⟩ := index_eq_ok indexed
    unfold generate at ran
    dsimp only at ran
    generalize Editor.ofRules indexing.index preparation.rules
      preparation.settings.declarationAware = editor at ran
    generalize shape : preparation.generateSources files editor preparation.sources = ending at ran
    obtain ⟨last, result⟩ := ending
    cases result with
    | ok finished => cases ran
    | error failure =>
      cases ran
      obtain ⟨edited, produced, finished⟩ := generateSources_configuration shape read.located
      have locatedBefore : Located files (preparation.beforeStray files) :=
        fun source listed => read.located source ((List.takeWhile_prefix _).subset listed)
      exact ⟨produced, (generateSources_confined finished).2,
        generateSources_mapped finished locatedBefore⟩

/-- A run that finishes has met no stray source. -/
theorem stopsAtStray_of_finished {preparation : Preparation} {files after : FileSystem}
    {summary : Summary} (ran : preparation.run files = (after, .ok summary)) :
    preparation.StopsAtStray files after := by
  obtain ⟨corpus, edited, read, generated, -⟩ := run_eq_ok ran
  have mapped := generateSources_mapped generated read.located
  have whole : preparation.beforeStray files = preparation.sources :=
    List.takeWhile_eq_self_iff.mpr (isOk_of_mapped mapped)
  exact ⟨summary.produced, (generateSources_confined generated).2, whole ▸ mapped⟩

theorem StopsAtStray.outputs {preparation : Preparation} {files after : FileSystem}
    (stops : preparation.StopsAtStray files after) :
    ∀ source ∈ preparation.beforeStray files, ∃ destination,
      preparation.destination files source = .ok destination ∧
        after.isFile destination = true := by
  obtain ⟨produced, -, mapped⟩ := stops
  intro source listed
  obtain ⟨destination, -, goal, location, content, there⟩ := exists_of_mem_left mapped listed
  exact ⟨destination, goal, by simp [isFile, there]⟩

/-- Nothing has changed exactly if every output leads to what it led to before. -/
theorem StopsAtStray.eq_iff {preparation : Preparation} {files after : FileSystem}
    (stops : preparation.StopsAtStray files after) :
    after = files ↔ ∀ source ∈ preparation.beforeStray files, ∀ destination,
      preparation.destination files source = .ok destination →
        after.locate destination = files.locate destination := by
  obtain ⟨produced, confined, mapped⟩ := stops
  have leads : ∀ destination ∈ produced, ∃ location content,
      after.locate destination = .ok (location, .file content) := by
    intro destination listed
    obtain ⟨source, -, goal, there⟩ := exists_of_mem_right mapped listed
    exact there
  rw [confined.eq_iff leads]
  constructor
  · intro kept source listed destination goal
    obtain ⟨output, member, goal', -⟩ := exists_of_mem_left mapped listed
    cases goal.symm.trans goal'
    exact kept destination member
  · intro kept destination listed
    obtain ⟨source, member, goal, -⟩ := exists_of_mem_right mapped listed
    exact kept source member destination goal

end Preparation

namespace CommandLine

open Preparation FileSystem

theorem files_compare (invocation : Invocation) (files : FileSystem) (warnings : List Warning)
    (output : Text) (produced : List Path) :
    (compare invocation files warnings output produced).files = files := by
  unfold compare
  split
  · rfl
  · dsimp only
    split <;> rfl

/-- An execution that was prepared does to the files what the run does, and fails if the run
fails. -/
theorem execute_run {invocation : Invocation} {files : FileSystem} {preparation : Preparation}
    (prepared : (ofSettings files invocation.settings).result = .ok preparation) :
    (execute invocation files).files = (preparation.run files).1 ∧
    ∀ failure, (preparation.run files).2 = .error failure →
      ∃ stage, (execute invocation files).result = .error ⟨stage, failure⟩ := by
  unfold execute run
  simp only [prepared]
  cases preparation.index files with
  | error failure => exact ⟨rfl, fun other same => ⟨some .indexing, by cases same; rfl⟩⟩
  | ok indexing =>
    unfold CommandLine.generate
    dsimp only
    generalize preparation.generate files indexing = ending
    obtain ⟨changed, result⟩ := ending
    cases result with
    | error failure => exact ⟨rfl, fun other same => ⟨some .generation, by cases same; rfl⟩⟩
    | ok summary => exact ⟨files_compare _ _ _ _ _, fun other same => by cases same⟩

/-- A configuration error with the files as it leaves them, of a whole execution or of a run that
was prepared by itself. -/
def EndsMisconfigured (invocation : Invocation) (files after : FileSystem)
    (what : Misconfiguration) : Prop :=
  (∃ stage, (execute invocation files).result = .error ⟨stage, .configuration what⟩ ∧
    (execute invocation files).files = after) ∨
  ∃ preparation, (ofSettings files invocation.settings).result = .ok preparation ∧
    preparation.run files = (after, .error (.configuration what))

/-- A configuration error comes while preparing, with nothing touched, or after the sources before
the first stray one. -/
theorem EndsMisconfigured.cases {invocation : Invocation} {files after : FileSystem}
    {what : Misconfiguration} (ends : EndsMisconfigured invocation files after what) :
    ((∀ preparation, (ofSettings files invocation.settings).result ≠ .ok preparation) ∧
      after = files) ∨
    ∃ preparation, (ofSettings files invocation.settings).result = .ok preparation ∧
      preparation.StopsAtStray files after := by
  rcases ends with ⟨stage, failed, rfl⟩ | ⟨preparation, prepared, ran⟩
  · cases prepared : (ofSettings files invocation.settings).result with
    | error failure => exact .inl ⟨by simp, by simp only [execute, prepared]⟩
    | ok preparation =>
      obtain ⟨same, fails⟩ := execute_run prepared
      rw [same]
      refine .inr ⟨preparation, rfl, ?_⟩
      cases ran : (preparation.run files).2 with
      | error failure =>
        obtain ⟨stage', failed'⟩ := fails failure ran
        cases failed.symm.trans failed'
        exact stopsAtStray_of_configuration (Prod.ext rfl ran)
      | ok summary => exact stopsAtStray_of_finished (Prod.ext rfl ran)
  · exact .inr ⟨preparation, prepared, stopsAtStray_of_configuration ran⟩

/-- A run that stops for its configuration has written the output of every source before the first
stray one, and has left the files as they were exactly if each of these outputs was in place
before. -/
theorem configuration_error_files_eq_iff {invocation : Invocation} {files after : FileSystem}
    {what : Misconfiguration} (ends : EndsMisconfigured invocation files after what) :
    (∀ preparation, (ofSettings files invocation.settings).result = .ok preparation →
      ∀ source ∈ preparation.beforeStray files, ∃ destination,
        preparation.destination files source = .ok destination ∧
          after.isFile destination = true) ∧
    (after = files ↔
      ∀ preparation, (ofSettings files invocation.settings).result = .ok preparation →
        ∀ source ∈ preparation.beforeStray files, ∀ destination,
          preparation.destination files source = .ok destination →
            after.locate destination = files.locate destination) := by
  rcases ends.cases with ⟨unprepared, same⟩ | ⟨preparation, prepared, stops⟩
  · exact ⟨fun preparation prepared => absurd prepared (unprepared preparation),
      fun _ preparation prepared => absurd prepared (unprepared preparation), fun _ => same⟩
  · have alone : ∀ other, (ofSettings files invocation.settings).result = .ok other →
        other = preparation := by
      intro other same
      cases prepared.symm.trans same
      rfl
    refine ⟨?_, ?_⟩
    · intro other same
      rw [alone other same]
      exact stops.outputs
    · rw [stops.eq_iff]
      constructor
      · intro kept other same
        rw [alone other same]
        exact kept
      · exact fun kept => kept preparation prepared

namespace Stray

/-- A list that names a file below the source root and then one beside it. -/
def files : FileSystem :=
  .ofTree [
    (⟨"src"⟩, .directory),
    (⟨"out"⟩, .directory),
    (⟨"rules"⟩, .file (encode "\x7b\"from\":\"a\",\"to\":\"b\",\"multiple\":true\x7d")),
    (⟨"list"⟩, .file (encode "src/x.kt\ny.kt")),
    (⟨"src/x.kt"⟩, .file (encode "a")),
    (⟨"y.kt"⟩, .file (encode "a"))]

def invocation : Invocation where
  settings :=
    { Settings.default with
      sourceRoot := ⟨"src"⟩
      sourceList := ⟨"list"⟩
      destinationRoot := ⟨"out"⟩
      ruleFile := ⟨"rules"⟩ }
  denyMismatches := false
  json := false
  debug := false

def preparation : Preparation :=
  ⟨invocation.settings, ⟨"/src"⟩, [⟨⟨"src/x.kt"⟩, ".kt"⟩, ⟨⟨"y.kt"⟩, ".kt"⟩],
    [⟨"a", "b", .all⟩], 0⟩

set_option maxRecDepth 10000 in
theorem prepared : (ofSettings files invocation.settings).result = .ok preparation := by
  cbv

set_option maxRecDepth 10000 in
theorem failed : (execute invocation files).result =
    .error ⟨some .generation, .configuration (.outsideSourceRoot ⟨"/y.kt"⟩ ⟨"/src"⟩)⟩ := by
  simp only [execute, prepared]
  rfl

end Stray

/-- The file below the source root has its output when the other one stops the run. -/
theorem configuration_error_files_eq_iff_stray :
    ∃ destination, Stray.preparation.destination Stray.files ⟨⟨"src/x.kt"⟩, ".kt"⟩ =
        .ok destination ∧
      (execute Stray.invocation Stray.files).files.isFile destination = true := by
  refine (configuration_error_files_eq_iff (.inl ⟨_, Stray.failed, rfl⟩)).1 Stray.preparation
    Stray.prepared _ ?_
  exact List.mem_of_mem_head? (by rfl)

set_option maxRecDepth 10000 in
/-- A configuration error can come after an output that was not there before. -/
theorem output_before_configuration_error :
    (execute Stray.invocation Stray.files).result =
        .error ⟨some .generation, .configuration (.outsideSourceRoot ⟨"/y.kt"⟩ ⟨"/src"⟩)⟩ ∧
      (execute Stray.invocation Stray.files).files ≠ Stray.files := by
  refine ⟨Stray.failed, fun same => ?_⟩
  have written : (execute Stray.invocation Stray.files).files.isFile ⟨"out/x.swift"⟩ = true := by
    simp only [execute, Stray.prepared]
    rfl
  rw [same] at written
  revert written
  decide

end CommandLine

end TreeMigration
