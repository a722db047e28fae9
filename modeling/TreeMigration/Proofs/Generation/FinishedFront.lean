import TreeMigration.Proofs.Generation.Interruption

/-!
What a second pass leaves that fails at a source. All sources before have their outputs as if they
had been the only ones; of the source itself there is no output, only directories that were made for
it. The step is one failed delivery, and a pass over more sources goes on where the one over fewer
has ended.

`firstSources` is the run with its list cut short. How far the list goes does not matter to the
sources that come first (`generateSources_firstSources`), and a pass over a list is a pass over its
front followed by one over the rest (`generateSources_append`); so a failed pass is compared with
the finished one over the sources in front. The rules are planned against the index of all sources
in both, since the first pass is over before anything is written.

A failed delivery has written nothing (`deliver_error_confined`). The directories it may have made
were missing before and lie above the output.
-/
namespace TreeMigration

namespace Preparation

open FileSystem

/-- The same run with no more than the given number of its sources. -/
def firstSources (preparation : Preparation) (count : Nat) : Preparation :=
  { preparation with sources := preparation.sources.take count }

/-- How far the list of sources goes does not matter for the sources that are generated. -/
theorem generateSources_firstSources (preparation : Preparation) (count : Nat)
    (files : FileSystem) (editor : Editor) (sources : List SourceFile) :
    (preparation.firstSources count).generateSources files editor sources =
      preparation.generateSources files editor sources := by
  induction sources generalizing files editor with
  | nil => rfl
  | cons source later ih =>
    simp only [generateSources, ih]
    rfl

/-- A second pass goes on after some sources as it begins on the files and the editor they leave. -/
theorem generateSources_append {preparation : Preparation} {files middle after : FileSystem}
    {editor edited : Editor} {front later : List SourceFile} {produced : List Path}
    {result : Except Failure (Editor × List Path)}
    (done : preparation.generateSources files editor front = (middle, .ok (edited, produced)))
    (further : preparation.generateSources middle edited later = (after, result)) :
    preparation.generateSources files editor (front ++ later) =
      (after, result.map fun rest => (rest.1, produced ++ rest.2)) := by
  induction front generalizing files editor produced with
  | nil =>
    cases done
    rw [List.nil_append, further]
    cases result with
    | error failure => rfl
    | ok rest => rfl
  | cons source front ih =>
    obtain ⟨original, destination, changed, rest, read, goal, delivered, finished, rfl⟩ :=
      generateSources_cons done
    have begun : preparation.editSource files editor source =
        .ok ((editor.editLines original).1, editedLines editor.plan original, destination) := by
      refine bind_eq_ok.mpr ⟨original, read, bind_eq_ok.mpr ⟨destination, goal, ?_⟩⟩
      rw [(editor.editLines_spec original).1]
    rw [List.cons_append, generateSources]
    simp only [begun, delivered, ih finished]
    cases result with
    | error failure => rfl
    | ok rest => rfl

/-- A delivery that fails has written nothing; it may have made directories on the way. -/
theorem deliver_error_confined {files after : FileSystem} {destination : Path} {lines : List Text}
    {failure : Failure} (failed : deliver files destination lines = (after, .error failure)) :
    Confined [] destination.ancestors files after := by
  have unwritten : ∀ {files : FileSystem},
      deliver.written destination lines files = (after, .error failure) → after = files := by
    intro files failed
    unfold deliver.written at failed
    split at failed
    · cases failed
    · cases failed
      rfl
  unfold deliver at failed
  split at failed
  · rw [unwritten failed]
    exact Confined.refl files
  · rename_i parent found
    have directories := files.makeDirectoriesBelow_confined parent parent.ancestors
    rw [← Path.ancestors_of_parent found] at directories
    change Confined _ _ _ (files.makeDirectories parent).1 at directories
    split at failed
    · rename_i made cause shape
      cases failed
      rw [shape] at directories
      exact directories
    · rename_i made shape
      rw [shape] at directories
      rw [unwritten failed]
      exact directories

/-- The second pass fails exactly as its work on the sources does. -/
theorem generate_eq_error_iff {preparation : Preparation} {files after : FileSystem}
    {indexing : Indexing} {failure : Failure} :
    preparation.generate files indexing = (after, .error failure) ↔
      preparation.generateSources files (Editor.ofRules indexing.index preparation.rules
        preparation.settings.declarationAware) preparation.sources = (after, .error failure) := by
  unfold generate
  dsimp only
  generalize preparation.generateSources files _ preparation.sources = ending
  obtain ⟨last, result⟩ := ending
  cases result with
  | error cause => simp [Except.map]
  | ok done => simp [Except.map]

/-- The second pass finishes if its work on the sources does. -/
theorem generate_of_ok {preparation : Preparation} {files after : FileSystem}
    {indexing : Indexing} {done : Editor × List Path}
    (finished : preparation.generateSources files (Editor.ofRules indexing.index preparation.rules
      preparation.settings.declarationAware) preparation.sources = (after, .ok done)) :
    ∃ summary, preparation.generate files indexing = (after, .ok summary) := by
  unfold generate
  dsimp only
  rw [finished]
  exact ⟨_, rfl⟩

/-- A second pass that fails leaves a finished front: the outputs of the sources before the one at
which it failed are as a pass over those alone leaves them, no file is made or changed for this
source or a later one, and all else that is new are directories, missing before, above the output of
this source. -/
theorem generate_error_leaves_front {preparation : Preparation} {files after : FileSystem}
    {indexing : Indexing} {failure : Failure}
    (failed : preparation.generate files indexing = (after, .error failure)) :
    ∃ k source middle summary, preparation.sources[k]? = some source ∧
      (preparation.firstSources k).generate files indexing = (middle, .ok summary) ∧
      (preparation.firstSources (k + 1)).generate files indexing = (after, .error failure) ∧
      (∀ location content, after.entry? location = some (.file content) ↔
        middle.entry? location = some (.file content)) ∧
      ∀ location, after.entry? location ≠ middle.entry? location →
        middle.entry? location = none ∧
        ∃ destination, preparation.destination middle source = .ok destination ∧
          ∃ above ∈ destination.ancestors, after.locate above = .ok (location, .directory) := by
  obtain ⟨before, source, later, middle, edited, produced, whole, finished, stopped⟩ :=
    generateSources_eq_error (generate_eq_error_iff.mp failed)
  have front : (preparation.firstSources before.length).sources = before := by
    simp [firstSources, whole]
  have through : (preparation.firstSources (before.length + 1)).sources = before ++ [source] := by
    simp [firstSources, whole, List.take_append]
  -- the source itself fails on the files that the ones before have left
  have stuck : preparation.generateSources middle edited [source] = (after, .error failure) := by
    rw [generateSources]
    rcases stopped with ⟨unedited, rfl⟩ | ⟨next, lines, destination, begun, undelivered⟩
    · simp only [unedited]
    · simp only [begun, undelivered]
  have changes : ∀ location, after.entry? location ≠ middle.entry? location →
      middle.entry? location = none ∧
      ∃ destination, preparation.destination middle source = .ok destination ∧
        ∃ above ∈ destination.ancestors, after.locate above = .ok (location, .directory) := by
    intro location differs
    rcases stopped with ⟨-, rfl⟩ | ⟨next, lines, destination, begun, undelivered⟩
    · exact absurd rfl differs
    · obtain ⟨-, -, -, -, goal⟩ := editSource_eq_ok begun
      rcases (deliver_error_confined undelivered).changes location differs with
        ⟨written, none, -⟩ | ⟨missing, directory⟩
      · cases none
      · exact ⟨missing, destination, goal, directory⟩
  obtain ⟨summary, generated⟩ := @generate_of_ok (preparation.firstSources before.length) files
    middle indexing (edited, produced) (by
      rw [front, generateSources_firstSources]
      exact finished)
  refine ⟨before.length, source, middle, summary, by simp [whole], generated, ?_, ?_, changes⟩
  · rw [generate_eq_error_iff, through, generateSources_firstSources]
    exact generateSources_append finished stuck
  · intro location content
    by_cases same : after.entry? location = middle.entry? location
    · rw [same]
    · obtain ⟨missing, _, -, _, -, leads⟩ := changes location same
      simp [missing, entry_of_locate leads]

namespace Overlong

def files : FileSystem :=
  .ofTree [
    (⟨"src"⟩, .directory),
    (⟨"out"⟩, .directory),
    (⟨"src/a.kt"⟩, .file (encode "a")),
    (⟨"src/p"⟩, .directory),
    (⟨"src/p/bb.kt"⟩, .file (encode "a"))]

def preparation : Preparation where
  settings :=
    { Settings.default with
      sourceRoot := ⟨"src"⟩
      destinationRoot := ⟨"out"⟩
      targetExtension := List.replicate 253 'x' }
  sourceRoot := ⟨"/src"⟩
  sources := [⟨⟨"src/a.kt"⟩, ".kt"⟩, ⟨⟨"src/p/bb.kt"⟩, ".kt"⟩]
  rules := [⟨"a", "b", .all⟩]
  refused := 0

def destination : Path := ⟨"out/p/bb." ++ List.replicate 253 'x'⟩

end Overlong

/-- The name of the second output is too long. The directory made for it stays beside the first
output, which is what generating the first source alone leaves. -/
theorem generate_error_leaves_front_overlong :
    ∃ after middle summary,
      Overlong.preparation.generate Overlong.files .empty =
        (after, .error (.file Overlong.destination .nameTooLong)) ∧
      (Overlong.preparation.firstSources 1).generate Overlong.files .empty = (middle, .ok summary) ∧
      after.isDirectory ⟨"out/p"⟩ = true ∧ middle.isDirectory ⟨"out/p"⟩ = false ∧
      ∀ location content, after.entry? location = some (.file content) ↔
        middle.entry? location = some (.file content) := by
  have named : (Overlong.preparation.generate Overlong.files .empty).2 =
      .error (.file Overlong.destination .nameTooLong) := by decide +kernel
  have failed : Overlong.preparation.generate Overlong.files .empty =
      ((Overlong.preparation.generate Overlong.files .empty).1,
        .error (.file Overlong.destination .nameTooLong)) := by rw [← named]
  obtain ⟨k, source, middle, summary, here, front, through, contents, -⟩ :=
    generate_error_leaves_front failed
  have finishes : ((Overlong.preparation.firstSources 1).generate Overlong.files .empty).2.isOk =
      true := by decide +kernel
  have within : k < 2 := (List.getElem?_eq_some_iff.mp here).1
  have second : k = 1 := by
    rcases (by omega : k = 0 ∨ k = 1) with rfl | one
    · rw [through] at finishes
      cases finishes
    · exact one
  subst second
  have made : (Overlong.preparation.generate Overlong.files .empty).1.isDirectory ⟨"out/p"⟩ =
      true := by decide +kernel
  have unmade : ((Overlong.preparation.firstSources 1).generate Overlong.files
      .empty).1.isDirectory ⟨"out/p"⟩ = false := by decide +kernel
  rw [front] at unmade
  exact ⟨_, middle, summary, failed, front, made, unmade, contents⟩

end Preparation

end TreeMigration
