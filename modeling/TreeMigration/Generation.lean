import TreeMigration.Preparation

/-!
The two passes of a run. The first reads every source file and enters its declarations; only when
all have been read does the second pass read each again, edit it and write its output.

Nothing is written before the first pass is over, so a source that cannot be read leaves the files
as they were. In the second pass each source is read, edited and given its destination before its
output is written, and the destination is asked for at that moment: when it fails, the outputs of
the sources before it are already there. A source is read as the files are then, which includes what
earlier sources wrote.

Both passes recurse on the list of sources, and the second threads the files and the editor through
it. The summary tells the numbers of the run; of these the produced paths and the statistics of the
rules are used later.
-/
namespace TreeMigration

/-- What a finished run tells: the files produced in source order and what each rule did. -/
structure Summary where
  filesProcessed : Nat
  rulesLoaded : Nat
  rulesRefused : Nat
  declarations : Nat
  produced : List Path
  statistics : List RuleStatistics
  deriving DecidableEq, Repr

def Summary.unused (summary : Summary) : List RuleStatistics :=
  summary.statistics.filter RuleStatistics.isUnused

namespace Preparation

/-- Enters the declarations of the source files, up to the first that cannot be read. -/
def indexSources (files : FileSystem) :
    Indexing → List SourceFile → Except Failure Indexing
  | indexing, [] => .ok indexing
  | indexing, source :: later => do
    let lines ← files.readLines source.path
    indexSources files (indexing.insertFile source.path lines) later

def index (preparation : Preparation) (files : FileSystem) : Except Failure Indexing :=
  indexSources files .empty preparation.sources

/-- Puts lines into the file at a path; directories made for it stay even if the file cannot be
written. -/
def deliver (files : FileSystem) (destination : Path) (lines : List Text) :
    FileSystem × Except Failure Unit :=
  match destination.parent? with
  | none => written files
  | some parent =>
    match files.makeDirectories parent with
    | (made, .error cause) => (made, .error (.file parent cause))
    | (made, .ok ()) => written made
where
  written (files : FileSystem) : FileSystem × Except Failure Unit :=
    match files.writeLines destination lines with
    | .ok changed => (changed, .ok ())
    | .error failure => (files, .error failure)

/-- The edited lines of one source file and where they go. -/
def editSource (preparation : Preparation) (files : FileSystem) (editor : Editor)
    (source : SourceFile) : Except Failure (Editor × List Text × Path) := do
  let lines ← files.readLines source.path
  let edited := editor.editLines lines
  let destination ← preparation.destination files source
  .ok (edited.1, edited.2, destination)

/-- Edits and writes source files one after the other, up to the first that fails. -/
def generateSources (preparation : Preparation) :
    FileSystem → Editor → List SourceFile → FileSystem × Except Failure (Editor × List Path)
  | files, editor, [] => (files, .ok (editor, []))
  | files, editor, source :: later =>
    match preparation.editSource files editor source with
    | .error failure => (files, .error failure)
    | .ok (edited, lines, destination) =>
      match deliver files destination lines with
      | (changed, .error failure) => (changed, .error failure)
      | (changed, .ok ()) =>
        let rest := generateSources preparation changed edited later
        (rest.1, rest.2.map fun done => (done.1, destination :: done.2))

def generate (preparation : Preparation) (files : FileSystem) (indexing : Indexing) :
    FileSystem × Except Failure Summary :=
  let editor := Editor.ofRules indexing.index preparation.rules
    preparation.settings.declarationAware
  let done := preparation.generateSources files editor preparation.sources
  (done.1, done.2.map fun (editor, produced) =>
    { filesProcessed := indexing.files
      rulesLoaded := preparation.rules.length
      rulesRefused := preparation.refused
      declarations := editor.index.size
      produced := produced
      statistics := editor.statistics })

def run (preparation : Preparation) (files : FileSystem) :
    FileSystem × Except Failure Summary :=
  match preparation.index files with
  | .error failure => (files, .error failure)
  | .ok indexing => preparation.generate files indexing

end Preparation

end TreeMigration
