import TreeMigration.Proofs.Declaration.Renaming
import TreeMigration.Proofs.Generation.Passes
import TreeMigration.Proofs.Generation.Preparing
import Mathlib

/-!
A whole run, from files to files. Both passes, the matching settled between them and the frame of
the file system come together in one statement about what a finished run leaves.

Nothing is proved here that belongs to one of the parts. The rules match as the names declared in
the sources say (`Matches`), the first pass has read exactly the lines that the second one edits,
every output holds the edited lines of its source, and whatever no output leads to is what it was or
a directory above an output. The conditions are on where outputs and sources lead at the end of the
run: no output leads to the file of a source, and two outputs lead to one file only if they come
from one. A run that fails is the subject of other modules.
-/
namespace TreeMigration

namespace Preparation

open FileSystem

/-- How the rules match in a run: whole identifiers if declarations count and the pattern is an
identifier that some source file declares, and plain text otherwise. -/
def Matches (preparation : Preparation) (files : FileSystem) (matching : Rule → Matching) : Prop :=
  ∀ rule, matching rule = .wholeIdentifier ↔
    preparation.settings.declarationAware = true ∧ rule.pattern.isIdentifier = true ∧
      ∃ source ∈ preparation.sources, ∃ lines, files.readLines source.path = .ok lines ∧
        rule.pattern.DeclaredIn lines

/-- End-to-end correctness of a run. A path that leads somewhere at any time of a run leads there at
its end, so what outputs share is asked of the files at the end. -/
theorem run_correct {files after : FileSystem} {settings : Settings} {preparation : Preparation}
    {summary : Summary} (prepared : (ofSettings files settings).result = .ok preparation)
    (ran : preparation.run files = (after, .ok summary))
    (apart : ∀ destination ∈ summary.produced, ∀ source ∈ preparation.sources,
      ¬ after.SameFile destination source.path)
    (shared : ∀ first ∈ preparation.sources.zip summary.produced,
      ∀ second ∈ preparation.sources.zip summary.produced,
      after.SameFile first.2 second.2 → files.SameFile first.1.path second.1.path) :
    MadeFrom files settings preparation ∧
    summary.produced.length = preparation.sources.length ∧
    summary.filesProcessed = preparation.sources.length ∧
    (∃ matching, preparation.Matches files matching ∧
      ∀ (i : Nat) source, preparation.sources[i]? = some source →
        ∃ destination lines location, summary.produced[i]? = some destination ∧
          preparation.destination files source = .ok destination ∧
          files.readLines source.path = .ok lines ∧
          after.locate destination = .ok (location, .file (encode
            (Text.ofLines (lines.map (Rule.chain matching preparation.rules)))))) ∧
    ∀ location, after.entry? location ≠ files.entry? location →
      (∃ destination ∈ summary.produced, ∃ content,
        after.locate destination = .ok (location, .file content)) ∨
      (files.entry? location = none ∧ ∃ destination ∈ summary.produced,
        ∃ above ∈ destination.ancestors, after.locate above = .ok (location, .directory)) := by
  obtain ⟨corpus, edited, read, generated, processed⟩ := run_eq_ok ran
  obtain ⟨counted, confined⟩ := generateSources_confined generated
  obtain ⟨-, mapped⟩ := List.forall₂_iff_zip.mp (generateSources_mapped generated read.located)
  have delivered := generateSources_delivered generated read.readable apart shared
  refine ⟨ofSettings_eq_ok prepared, counted, processed, ⟨fun rule =>
    (PlannedRule.ofRule (Indexing.ofFiles corpus).index preparation.settings.declarationAware
      rule).matching, ?_, ?_⟩, ?_⟩
  · intro rule
    rw [PlannedRule.matching_ofRule_iff, Indexing.contains_ofFiles_iff, read.declared_iff]
  · intro i source here
    have inSources : i < preparation.sources.length := (List.getElem?_eq_some_iff.mp here).1
    obtain ⟨destination, there⟩ : ∃ destination, summary.produced[i]? = some destination :=
      ⟨_, List.getElem?_eq_getElem (by omega)⟩
    have member : (source, destination) ∈ preparation.sources.zip summary.produced :=
      List.mem_of_getElem? (List.getElem?_zip_eq_some.mpr ⟨here, there⟩)
    obtain ⟨lines, location, readSource, holds⟩ := delivered _ member
    refine ⟨destination, lines, location, there, (mapped member).1, readSource, ?_⟩
    have same : editedLines ((Editor.ofRules (Indexing.ofFiles corpus).index preparation.rules
        preparation.settings.declarationAware).plan) lines = _ :=
      List.map_congr_left fun line _ => editLine_ofRules _ _ _ line
    rw [same] at holds
    exact holds
  · intro location differs
    rcases confined.changes location differs with written | ⟨missing, above, listed, leads⟩
    · exact .inl written
    · obtain ⟨destination, produced, member⟩ := List.mem_flatMap.mp listed
      exact .inr ⟨missing, destination, produced, above, member, leads⟩

namespace Sample

def files : FileSystem :=
  .ofTree [
    (⟨"src"⟩, .directory),
    (⟨"out"⟩, .directory),
    (⟨"rules"⟩, .file (encode "\x7b\"from\":\"old\",\"to\":\"new\",\"multiple\":true\x7d")),
    (⟨"src/x.kt"⟩, .file (encode "fun old()\nolder = old"))]

def settings : Settings :=
  { Settings.default with
    sourceRoot := ⟨"src"⟩
    sourceList := ⟨"src"⟩
    destinationRoot := ⟨"out"⟩
    ruleFile := ⟨"rules"⟩
    declarationAware := true }

def preparation : Preparation :=
  ⟨settings, ⟨"/src"⟩, [⟨⟨"src/x.kt"⟩, ".kt"⟩], [⟨"old", "new", .all⟩], 0⟩

def summary : Summary :=
  ⟨1, 1, 0, 1, [⟨"out/x.swift"⟩], [⟨"old", .wholeIdentifier, ⟨2, 2⟩, some .function⟩]⟩

end Sample

set_option maxRecDepth 10000 in
/-- The declared name is renamed, the longer one that contains it is not. -/
theorem run_correct_sample :
    (ofSettings Sample.files Sample.settings).result = .ok Sample.preparation ∧
    ∃ after location, Sample.preparation.run Sample.files = (after, .ok Sample.summary) ∧
      after.locate ⟨"out/x.swift"⟩ =
        .ok (location, .file (encode (Text.ofLines ["fun new()", "older = new"]))) := by
  have prepared : (ofSettings Sample.files Sample.settings).result = .ok Sample.preparation := by
    cbv
  have ran : Sample.preparation.run Sample.files =
      ((Sample.preparation.run Sample.files).1, .ok Sample.summary) :=
    Prod.ext rfl (by decide +kernel)
  have leads : ∃ content, (Sample.preparation.run Sample.files).1.locate ⟨"out/x.swift"⟩ =
      .ok ([⟨"x.swift", by decide⟩, ⟨"out", by decide⟩], .file content) := ⟨_, by rfl⟩
  have source : ∃ content, (Sample.preparation.run Sample.files).1.locate ⟨"src/x.kt"⟩ =
      .ok ([⟨"x.kt", by decide⟩, ⟨"src", by decide⟩], .file content) := ⟨_, by rfl⟩
  have read : Sample.files.readLines ⟨"src/x.kt"⟩ = .ok ["fun old()", "older = old"] := by rfl
  obtain ⟨output, leads⟩ := leads
  obtain ⟨input, source⟩ := source
  obtain ⟨-, -, -, ⟨matching, planned, outputs⟩, -⟩ := run_correct prepared ran
    (by
      intro destination produced other listed
      cases List.mem_singleton.mp produced
      cases List.mem_singleton.mp listed
      exact not_sameFile_of_locate leads source (by decide))
    (by
      intro first one second two _
      cases List.mem_singleton.mp one
      cases List.mem_singleton.mp two
      obtain ⟨location, content, there, -⟩ := readLines_eq_ok_iff.mp read
      exact ⟨location, content, there, there⟩)
  obtain ⟨destination, lines, location, produced, -, lines_eq, holds⟩ := outputs 0 _ rfl
  have whole : matching ⟨"old", "new", .all⟩ = .wholeIdentifier := by
    refine (planned _).mpr ⟨rfl, by decide, _, List.mem_singleton_self _, _, read, ?_⟩
    exact ⟨_, List.mem_cons_self, ⟨"old", .function⟩, by decide +kernel, rfl⟩
  cases read.symm.trans lines_eq
  cases produced
  refine ⟨prepared, _, location, ran, ?_⟩
  have chained : (["fun old()", "older = old"] : List Text).map
      (Rule.chain matching Sample.preparation.rules) =
        (["fun new()", "older = new"] : List Text) := by
    simp only [Rule.chain, Sample.preparation, List.map_cons, List.map_nil, List.foldl_cons,
      List.foldl_nil, whole]
    rfl
  exact chained ▸ holds

end Preparation

end TreeMigration
