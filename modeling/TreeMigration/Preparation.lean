import TreeMigration.Editor
import TreeMigration.Rule.Collection
import TreeMigration.Settings
import TreeMigration.SourceList

/-!
Everything a run needs before its first file is read: sound settings, the list of source files and
at least one rule. A prepared run also knows where the output of every source file goes.

Preparing goes through the settings in order and stops at the first thing that is wrong; it reads
the list and the rules and changes nothing. The warnings given on the way, for listed paths that
lead nowhere and for refused rule lines, are kept when a later step fails.

The output of a source file mirrors its place under the source root. That place is found by taking
the absolute path of the file without links, so a source reached through a link has its output where
the file itself lies, and a file outside the source root has none. The extension is replaced in the
last component only, and only if that component ends in the one the file was listed for, which after
a link it need not.
-/
namespace TreeMigration

/-- A run that is ready to start; its source root is absolute and free of links. -/
structure Preparation where
  settings : Settings
  sourceRoot : Path
  sources : List SourceFile
  rules : List Rule
  refused : Nat
  deriving DecidableEq, Repr

/-- The rules in a file, with a warning for every line refused. -/
def RuleCollection.ofFile (files : FileSystem) (path : Path) : Noted RuleCollection := do
  let lines ← .ofResult (files.readLines path)
  let collection := RuleCollection.ofLines lines
  .warn (collection.diagnostics.map fun d => .refusedRule path d.lineNumber d.reason d.text)
  pure collection

namespace Preparation

def ofSettings (files : FileSystem) (settings : Settings) : Noted Preparation := do
  .ofResult (settings.check files)
  let sourceRoot ← .ofResult (onPath settings.sourceRoot (files.canonical settings.sourceRoot))
  let sources ← SourceList.resolve files settings.sourceList settings.sourceExtension
  let collection ← RuleCollection.ofFile files settings.ruleFile
  if collection.rules.isEmpty then
    let file := match files.canonical settings.ruleFile with
      | .ok absolute => absolute
      | .error _ => settings.ruleFile
    .ofResult (.error (.configuration (.noRules file)))
  else
    pure ⟨settings, sourceRoot, sources, collection.rules, collection.diagnostics.length⟩

/-- The path under the destination root that mirrors a path under the source root, with the target
extension in place of the source file's. -/
def mirrored (preparation : Preparation) (source : SourceFile) (relative : Path) : Path :=
  let destination := preparation.settings.destinationRoot.join relative
  match relative.fileName?.bind (source.extension.isSuffixOf? ·) with
  | none => destination
  | some stem =>
    destination.withFileName (stem ++ withDot preparation.settings.targetExtension)

def destination (preparation : Preparation) (files : FileSystem) (source : SourceFile) :
    Except Failure Path := do
  let absolute ← onPath source.path (files.canonical source.path)
  match Path.stripPrefix? preparation.sourceRoot absolute with
  | none => .error (.configuration (.outsideSourceRoot absolute preparation.sourceRoot))
  | some relative => .ok (preparation.mirrored source relative)

end Preparation

end TreeMigration
