import TreeMigration.CommandLine.Program
import TreeMigration.Proofs.Comparison.Exactness
import TreeMigration.Proofs.Generation.Interruption
import TreeMigration.Proofs.Generation.Repetition
import TreeMigration.Proofs.Path.Relative

/-!
Running again. A second run into another destination tree, compared with the tree that the first one
left, finds no difference, unless a reference path is too long to be one or the list leads to
sources that the first run did not have.

The statement is about two executions on the files as each finds them, so everything the first run
has left is there in the second. What makes the runs alike is proved with the repetition of work;
here it is carried through the comparison. `check_of_checked` takes a comparison apart into its
files, and `checkFile_of_counterpart` settles one file: the generated file and its reference hold
the same text, and the only difference left is that of a path too long to lead anywhere
(`overlong`).

Both exceptions are met. In the last statement of the module a listed path leads through a directory
that only the first run makes, and a destination root is spelled so long that there is no room for a
name behind it.
-/
namespace TreeMigration

namespace Comparison

open FileSystem

/-- A comparison in which every file can be checked is made of what is found in each. -/
theorem check_of_checked {files : FileSystem} {destinationRoot referenceRoot : Path}
    {found : Path → List Difference} {produced : List Path}
    (each : ∀ file ∈ produced,
      checkFile files destinationRoot referenceRoot file = .ok (found file)) :
    check files destinationRoot referenceRoot produced =
      .ok ⟨produced.length, produced.flatMap fun file => entries file (found file)⟩ := by
  induction produced with
  | nil => rfl
  | cons file later ih =>
    rw [check, each file List.mem_cons_self,
      ih fun other listed => each other (List.mem_cons_of_mem _ listed)]
    rfl

/-- What is found in a file whose reference can only be missing because its path is too long. -/
def overlong (destinationRoot referenceRoot file : Path) : List Difference :=
  match referencePath destinationRoot referenceRoot file with
  | .ok reference =>
    if Text.byteSize reference.text < pathLimit then [] else [.missingReference reference]
  | .error _ => []

/-- The references of some files have paths that are short enough to be one. -/
def ReferencesFit (destinationRoot referenceRoot : Path) (produced : List Path) : Prop :=
  ∀ file ∈ produced, ∀ reference, referencePath destinationRoot referenceRoot file = .ok reference →
    Text.byteSize reference.text < pathLimit

theorem overlong_eq_nil_iff {destinationRoot referenceRoot : Path} {produced : List Path} :
    (produced.flatMap fun file => entries file (overlong destinationRoot referenceRoot file)) = [] ↔
      ReferencesFit destinationRoot referenceRoot produced := by
  rw [List.flatMap_eq_nil_iff]
  refine forall₂_congr fun file _ => ?_
  rw [entries, List.map_eq_nil_iff, overlong]
  cases referencePath destinationRoot referenceRoot file with
  | error failure => simp
  | ok reference => simp

/-- A file that continues the destination root as another with the same text continues the reference
root differs from its reference only if the path of that is too long. -/
theorem checkFile_of_counterpart {files : FileSystem} {destinationRoot referenceRoot : Path}
    {file counterpart : Path} {names : List Text} {t : Text} (free : files.LinkFree)
    (spelled : destinationRoot.text ≠ []) (spelled' : referenceRoot.text ≠ [])
    (clear : '\x00' ∉ referenceRoot.text) (filled : names ≠ [])
    (named : file.components =
      (destinationRoot.parts.lead, destinationRoot.parts.names ++ names))
    (named' : counterpart.components =
      (referenceRoot.parts.lead, referenceRoot.parts.names ++ names))
    (holds : files.HoldsText file t) (holds' : files.HoldsText counterpart t) :
    checkFile files destinationRoot referenceRoot file =
      .ok (overlong destinationRoot referenceRoot file) := by
  obtain ⟨lead, whole⟩ := Prod.mk.inj named
  have begins : destinationRoot.Begins file := .inr ⟨lead.symm, by simp [whole]⟩
  cases found : referencePath destinationRoot referenceRoot file with
  | error failure => exact absurd begins (referencePath_eq_error_iff.mp ⟨failure, found⟩)
  | ok reference =>
    obtain ⟨continues, ends, some, spelling⟩ :=
      referencePath_eq_ok found spelled spelled' filled whole
    rw [checkFile, overlong, found]
    by_cases short : Text.byteSize reference.text < pathLimit
    · obtain ⟨place, located⟩ := holds
      obtain ⟨location, located'⟩ := holds'
      have unmarked : '\x00' ∉ reference.text := by
        intro marked
        rcases spelling _ marked with slash | inRoot | inFile
        · cases slash
        · exact clear inRoot
        · exact (possible_of_locate located).1 inFile
      have routed : route reference = .ok (Route.ofText reference.text) :=
        route_eq_ok_iff.mpr ⟨some, unmarked, short, rfl⟩
      have leads := locate_of_components free located' (continues.trans named'.symm) ends routed
      have isFile := isFile_iff.mpr ⟨location, _, leads⟩
      have ours := readLines_eq_ok_iff_holdsText.mpr ⟨t, ⟨place, located⟩, rfl⟩
      have theirs := readLines_eq_ok_iff_holdsText.mpr ⟨t, ⟨location, leads⟩, rfl⟩
      have same : differences (Text.lines t) (Text.lines t) = [] := differences_eq_nil_iff.mpr rfl
      simp only [bind, Except.bind, isFile, ours, theirs, same, short, if_true]
    · have missing : files.isFile reference ≠ true := by
        intro isFile
        obtain ⟨location, content, leads⟩ := isFile_iff.mp isFile
        exact short (possible_of_locate leads).2
      simp only [bind, Except.bind, missing, short, if_false]
      rfl

end Comparison

namespace CommandLine

open Preparation FileSystem

/-- An execution that generates everything: if it breaks down, then while comparing. -/
def Transpiles (invocation : Invocation) (files : FileSystem) : Prop :=
  ∀ breakdown, (execute invocation files).result = .error breakdown →
    breakdown.stage = some .comparison

/-- An execution that does not break down at all generates everything. -/
theorem transpiles_of_ok {invocation : Invocation} {files : FileSystem} {completion : Completion}
    (done : (execute invocation files).result = .ok completion) : Transpiles invocation files := by
  intro breakdown broken
  cases done.symm.trans broken

/-- An execution that generates everything has prepared a run, finished it and gone on to the
comparison. -/
theorem Transpiles.ran {invocation : Invocation} {files : FileSystem}
    (transpiles : Transpiles invocation files) :
    ∃ preparation summary warnings output,
      (ofSettings files invocation.settings).result = .ok preparation ∧
      preparation.run files = ((execute invocation files).files, .ok summary) ∧
      execute invocation files = compare invocation (execute invocation files).files warnings output
        summary.produced := by
  cases prepared : (ofSettings files invocation.settings).result with
  | error failure =>
    have broken := transpiles ⟨none, failure⟩ (by simp only [execute, prepared])
    cases broken
  | ok preparation =>
    have done := (execute_run prepared).1
    cases indexed : preparation.index files with
    | error failure =>
      have broken := transpiles ⟨some .indexing, failure⟩
        (by simp only [execute, prepared, indexed])
      cases broken
    | ok indexing =>
      have whole : preparation.run files = preparation.generate files indexing := by
        rw [Preparation.run, indexed]
      cases ending : preparation.generate files indexing with
      | mk changed result =>
        rw [whole, ending] at done
        cases result with
        | error failure =>
          have broken := transpiles ⟨some .generation, failure⟩
            (by simp only [execute, prepared, indexed, CommandLine.generate, ending])
          cases broken
        | ok summary =>
          obtain ⟨warnings, output, compared⟩ : ∃ warnings output, execute invocation files =
              compare invocation changed warnings output summary.produced := by
            simp only [execute, prepared, indexed, CommandLine.generate, ending]
            exact ⟨_, _, rfl⟩
          refine ⟨preparation, summary, warnings, output, rfl, by rw [whole, ending, done], ?_⟩
          rw [done]
          exact compared

/-- A program that finds no mismatch ends well, whether or not mismatches are denied. -/
theorem exitCode_of_clean {arguments : List Text} {files : FileSystem} {invocation : Invocation}
    {completion : Completion} (asked : Invocation.ofArguments arguments = .ok invocation)
    (done : (execute invocation files).result = .ok completion)
    (clean : completion.mismatches = 0) : (runProgram arguments files).exitCode = 0 := by
  have chain : failureChain invocation (execute invocation files) = [] := by
    simp [failureChain, done, clean]
  simp [runProgram, asked, chain]

/-- Runs are reproducible. If a run generates everything, and again into another destination tree,
the comparison of the two trees does not fail: all files are checked, and none differs unless its
reference path is too long. -/
theorem rerun_reproduces {files : FileSystem} {first second : Invocation}
    {preparation : Preparation}
    (rerun : Rerun files (execute first files).files first.settings second.settings)
    (prepared : (ofSettings files first.settings).result = .ok preparation)
    (transpiles : Transpiles first files)
    (transpilesAgain : Transpiles second (execute first files).files)
    (addsNone : preparation.AddsNone files (execute first files).files) :
    ∃ again produced report,
      (ofSettings (execute first files).files second.settings).result = .ok again ∧
      (execute second (execute first files).files).result = .ok ⟨produced, some report⟩ ∧
      report.filesChecked = again.sources.length ∧
      (report.mismatches = [] ↔ Comparison.ReferencesFit second.settings.destinationRoot
        first.settings.destinationRoot produced) ∧
      (report.mismatches = [] → ∀ arguments, Invocation.ofArguments arguments = .ok second →
        (runProgram arguments (execute first files).files).exitCode = 0) := by
  obtain ⟨_, summary, -, -, prepared', ran, -⟩ := transpiles.ran
  cases prepared.symm.trans prepared'
  obtain ⟨again, summary', warnings, output, preparedAgain, ranAgain, executed⟩ :=
    transpilesAgain.ran
  have made := ofSettings_eq_ok prepared
  have made' := ofSettings_eq_ok preparedAgain
  have plain' : '/' ∉ second.settings.targetExtension := by
    rw [rerun.same]
    exact rerun.plain
  have apart' : (execute first files).files.Apart second.settings.sourceRoot
      second.settings.destinationRoot := by
    rw [rerun.same]
    exact rerun.sourcesAgain
  have referenceRoot : second.settings.referenceRoot = some first.settings.destinationRoot := by
    rw [rerun.same]
  obtain ⟨top, corpus, leaves⟩ :=
    leavesOutputs_of_run rerun.linkFree rerun.plain rerun.sources prepared ran
  obtain ⟨top', corpus', leaves'⟩ :=
    leavesOutputs_of_run leaves.linkFree plain' apart' preparedAgain ranAgain
  have work := sameWork_of_rerun rerun made made' leaves leaves' addsNone
  have root := leaves.root
  have root' := leaves'.root
  rw [made.kept] at root
  rw [made'.kept] at root'
  obtain ⟨_, rootLater, -⟩ := locate_of_grown leaves.grown.grown root
  have each : ∀ file ∈ summary'.produced, Comparison.checkFile
      (execute second (execute first files).files).files second.settings.destinationRoot
      first.settings.destinationRoot file =
        .ok (Comparison.overlong second.settings.destinationRoot first.settings.destinationRoot
          file) := by
    intro file member
    obtain ⟨counterpart, names, t, filled, named, named', holds, location, inside, leads⟩ :=
      work.exists_counterpart leaves leaves' member
    rw [made.kept] at named'
    rw [made'.kept] at named
    -- the second run writes below its own root only, so the counterpart is still there
    have out := not_suffix_of_apart (rerun.destinations _ _ _ _ rootLater root') inside
    exact Comparison.checkFile_of_counterpart leaves'.linkFree (text_ne_nil_of_locate root')
      (text_ne_nil_of_locate root) (possible_of_locate root).1 filled named named' holds
      ⟨location, leaves'.grown.locate leads out⟩
  obtain ⟨report, checked, count, clean⟩ : ∃ report : Report,
      Comparison.check (execute second (execute first files).files).files
        second.settings.destinationRoot first.settings.destinationRoot summary'.produced =
          .ok report ∧
      report.filesChecked = summary'.produced.length ∧
      (report.mismatches = [] ↔ Comparison.ReferencesFit second.settings.destinationRoot
        first.settings.destinationRoot summary'.produced) :=
    ⟨_, Comparison.check_of_checked each, rfl, Comparison.overlong_eq_nil_iff⟩
  have result : (execute second (execute first files).files).result =
      .ok ⟨summary'.produced, some report⟩ := by
    rw [executed, compare, referenceRoot]
    simp only [checked]
  refine ⟨again, summary'.produced, report, preparedAgain, result, ?_, clean, ?_⟩
  · rw [count, leaves'.renamed.length_eq]
  · intro none arguments asked
    exact exitCode_of_clean asked result (by simp [Completion.mismatches, none])

namespace Again

/-- A name almost as long as one can be. -/
def long : Text := List.replicate 63 (Char.ofNat 0x10000)

/-- Two source files, two destination trees of which one has something in it, a directory with a long
name, a rule file and a list with the given text. -/
def files (list : Text) : FileSystem :=
  .ofTree [
    (⟨long⟩, .directory),
    (⟨"src"⟩, .directory),
    (⟨"src/new"⟩, .directory),
    (⟨"src/new/y.kt"⟩, .file (encode "a")),
    (⟨"src/x.kt"⟩, .file (encode "a")),
    (⟨"a"⟩, .directory),
    (⟨"b"⟩, .directory),
    (⟨"b/x.swift"⟩, .file (encode "c")),
    (⟨"rules"⟩, .file (encode "\x7b\"from\":\"a\",\"to\":\"b\",\"multiple\":true\x7d")),
    (⟨"list"⟩, .file (encode list))]

def first (root : Text) : Invocation where
  settings :=
    { Settings.default with
      sourceRoot := ⟨"src"⟩
      sourceList := ⟨"list"⟩
      destinationRoot := ⟨root⟩
      ruleFile := ⟨"rules"⟩ }
  denyMismatches := false
  json := false
  debug := false

/-- A run into the second destination tree, compared with the first one. -/
def second (root : Text) : Invocation where
  settings := { (first root).settings with
    destinationRoot := ⟨"b"⟩
    referenceRoot := some ⟨root⟩ }
  denyMismatches := true
  json := false
  debug := false

def left (root list : Text) : FileSystem := (execute (first root) (files list)).files

/-- The source file, and a path to it that leads through a directory which the run makes. -/
def returning : Text := "src/new/y.kt\na/new/../../src/new/y.kt"

/-- A source file, and a path to another one that leads through a directory which the run makes. -/
def straying : Text := "src/new/y.kt\na/new/../../src/x.kt"

/-- A path to the first destination tree that goes into the directory with the long name and out
again many times. -/
def winding : Text := (List.replicate 15 (long ++ "/../")).flatten ++ "a"

/-- The same path with so many slashes at the end that there is no room for a name behind them. -/
def stretched : Text := winding ++ List.replicate 250 '/'

def preparation : Preparation :=
  ⟨(first "a").settings, ⟨"/src"⟩, [⟨⟨"src/new/y.kt"⟩, ".kt"⟩], [⟨"a", "b", .all⟩], 0⟩

/-- The listed path that leads somewhere by the second run leads to the source of the first. -/
theorem addsNone_returning : preparation.AddsNone (files returning) (left "a" returning) := by
  have lines : (files returning).readLines ⟨"list"⟩ =
      .ok ["src/new/y.kt", "a/new/../../src/new/y.kt"] := by decide +kernel
  have gives : SourceList.below (left "a" returning) ".kt" ⟨"a/new/../../src/new/y.kt"⟩ =
      [⟨⟨"a/new/../../src/new/y.kt"⟩, ".kt"⟩] := by decide +kernel
  have noDirectory : (files returning).isDirectory ⟨"list"⟩ = false := by decide +kernel
  have there : (files returning).pathExists ⟨"src/new/y.kt"⟩ = true := by decide +kernel
  rintro path (⟨directory, -⟩ | ⟨found, read, line, listed, rfl⟩) missing source member
  · cases noDirectory.symm.trans directory
  · cases lines.symm.trans read
    rcases List.mem_cons.mp listed with rfl | listed
    · cases there.symm.trans missing
    · obtain rfl := List.mem_singleton.mp listed
      have isSource : source ∈ SourceList.below (left "a" returning) ".kt"
          ⟨"a/new/../../src/new/y.kt"⟩ := member
      rw [gives] at isSource
      obtain rfl := List.mem_singleton.mp isSource
      exact ⟨⟨⟨"src/new/y.kt"⟩, ".kt"⟩, List.mem_singleton_self _, by decide +kernel⟩

end Again

/-- The second path of the list leads to the same source file, but only after the first run. -/
theorem rerun_reproduces_returning :
    Rerun (Again.files Again.returning) (Again.left "a" Again.returning) (Again.first "a").settings
      (Again.second "a").settings ∧
    Again.preparation.AddsNone (Again.files Again.returning) (Again.left "a" Again.returning) ∧
    (execute (Again.second "a") (Again.left "a" Again.returning)).result =
      .ok ⟨[⟨"b/new/y.swift"⟩, ⟨"b/new/y.swift"⟩], some ⟨2, []⟩⟩ ∧
    (runProgram ["src", "list", "b", "rules", "a", "--deny-mismatches"]
      (Again.left "a" Again.returning)).exitCode = 0 := by
  obtain ⟨rerun, prepared, done, doneAgain⟩ :
      Rerun (Again.files Again.returning) (Again.left "a" Again.returning) (Again.first "a").settings
        (Again.second "a").settings ∧
      (ofSettings (Again.files Again.returning) (Again.first "a").settings).result =
        .ok Again.preparation ∧
      (execute (Again.first "a") (Again.files Again.returning)).result =
        .ok ⟨[⟨"a/new/y.swift"⟩], none⟩ ∧
      (execute (Again.second "a") (Again.left "a" Again.returning)).result =
        .ok ⟨[⟨"b/new/y.swift"⟩, ⟨"b/new/y.swift"⟩], some ⟨2, []⟩⟩ := by decide +kernel
  refine ⟨rerun, Again.addsNone_returning, doneAgain, ?_⟩
  obtain ⟨again, produced, report, -, finished, -, -, exits⟩ :=
    rerun_reproduces rerun prepared (transpiles_of_ok done) (transpiles_of_ok doneAgain)
      Again.addsNone_returning
  cases doneAgain.symm.trans finished
  exact exits rfl _ rfl

/-- A listed path that leads to a source file only after the first run gives the second run an output
that the first has not; and a reference path that is too long leads to no file. The comparison finds
both. -/
theorem rerun_finds_mismatch :
    (Rerun (Again.files Again.straying) (Again.left "a" Again.straying) (Again.first "a").settings
        (Again.second "a").settings ∧
      (execute (Again.first "a") (Again.files Again.straying)).result =
        .ok ⟨[⟨"a/new/y.swift"⟩], none⟩ ∧
      (execute (Again.second "a") (Again.left "a" Again.straying)).result =
        .ok ⟨[⟨"b/new/y.swift"⟩, ⟨"b/x.swift"⟩],
          some ⟨2, [⟨⟨"b/x.swift"⟩, .missingReference ⟨"a/x.swift"⟩⟩]⟩⟩) ∧
    (Rerun (Again.files "src/x.kt") (Again.left Again.stretched "src/x.kt")
        (Again.first Again.stretched).settings (Again.second Again.stretched).settings ∧
      (execute (Again.first Again.stretched) (Again.files "src/x.kt")).result =
        .ok ⟨[⟨Again.winding ++ "/x.swift"⟩], none⟩ ∧
      (execute (Again.second Again.stretched) (Again.left Again.stretched "src/x.kt")).result =
        .ok ⟨[⟨"b/x.swift"⟩],
          some ⟨1, [⟨⟨"b/x.swift"⟩, .missingReference ⟨Again.stretched ++ "x.swift"⟩⟩]⟩⟩) := by
  constructor <;> decide +kernel

end CommandLine

end TreeMigration
