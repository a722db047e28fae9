import TreeMigration.Failure

/-!
What a run works on. Before anything is read or written every path has to lead to something of the
right kind.

The checks come in the order of the settings: the source root is a directory, the source list leads
to something, the destination root is a directory, the rule file is a file, and the reference root,
where one is given, is a directory. The first that fails is reported and the others are not asked. A
link counts as what it leads to. Nothing is said about the roots among each other: the destination
may lie below the source root or be the same directory.
-/
namespace TreeMigration

structure Settings where
  sourceRoot : Path
  sourceList : Path
  destinationRoot : Path
  ruleFile : Path
  referenceRoot : Option Path
  sourceExtension : Text
  targetExtension : Text
  declarationAware : Bool
  deriving DecidableEq, Repr

namespace Settings

/-- The settings where nothing else is said. -/
def default : Settings where
  sourceRoot := ⟨"."⟩
  sourceList := ⟨"."⟩
  destinationRoot := ⟨"./out"⟩
  ruleFile := ⟨"./rules.json"⟩
  referenceRoot := none
  sourceExtension := ".kt"
  targetExtension := ".swift"
  declarationAware := false

/-- The first path that does not lead to what it should, in the order of the settings. -/
def misconfiguration? (settings : Settings) (files : FileSystem) : Option Misconfiguration :=
  if !files.isDirectory settings.sourceRoot then some (.noSourceRoot settings.sourceRoot)
  else if !files.pathExists settings.sourceList then some (.noSourceList settings.sourceList)
  else if !files.isDirectory settings.destinationRoot then
    some (.noDestinationRoot settings.destinationRoot)
  else if !files.isFile settings.ruleFile then some (.noRuleFile settings.ruleFile)
  else (settings.referenceRoot.filter fun root => !files.isDirectory root).map .noReferenceRoot

def check (settings : Settings) (files : FileSystem) : Except Failure Unit :=
  match settings.misconfiguration? files with
  | some what => .error (.configuration what)
  | none => .ok ()

end Settings

end TreeMigration
