import TreeMigration.FileSystem.Operations
import TreeMigration.Rule.Rejection

/-!
What can go wrong in a run, and what is only worth a warning. A configuration failure is about how
the run was set up; a file failure names the path on which an operation failed.

A warning never changes what a run does. Three things are warned of: a listed path that leads
nowhere, a rule line that was refused, and a rule that changed no line. Those of a step that failed
are not lost, which is what `Noted` is for: it is a result together with the warnings given on the
way to it, and stays a monad when the result is a failure.

Lines are read and written here, since the text of a failure needs the path that was asked for. A
file that is not UTF-8 text fails on reading with the cause `notText`, and no part of it is used.
-/
namespace TreeMigration

/-- A run that cannot be done as set up. -/
inductive Misconfiguration where
  | noSourceRoot (path : Path)
  | noSourceList (path : Path)
  | noDestinationRoot (path : Path)
  | noRuleFile (path : Path)
  | noReferenceRoot (path : Path)
  | nothingToList (path : Path)
  | noRules (file : Path)
  | outsideSourceRoot (file root : Path)
  | outsideDestinationRoot (file root : Path)
  deriving DecidableEq, Repr

def Misconfiguration.message : Misconfiguration → Text
  | .noSourceRoot path => "Bad source dir: " ++ path.text
  | .noSourceList path => "Bad source files list: " ++ path.text
  | .noDestinationRoot path => "Bad destination dir: " ++ path.text
  | .noRuleFile path => "Bad rule file: " ++ path.text
  | .noReferenceRoot path => "Bad reference dir: " ++ path.text
  | .nothingToList path => "Bad source root: " ++ path.text
  | .noRules file => "Rule file has no valid rules: " ++ file.text
  | .outsideSourceRoot file root =>
    "Source file " ++ file.text ++ " is outside the source root " ++ root.text
  | .outsideDestinationRoot file root =>
    "Produced file " ++ file.text ++ " is outside the destination root " ++ root.text

inductive Failure where
  | configuration (what : Misconfiguration)
  | file (path : Path) (cause : FileError)
  deriving DecidableEq, Repr

def Failure.message : Failure → Text
  | .configuration what => "Configuration error: " ++ what.message
  | .file path cause => "I/O error on " ++ path.text ++ ": " ++ cause.message

/-- An operation on a path, whose failure names the path. -/
def onPath {α : Type} (path : Path) (result : Except FileError α) : Except Failure α :=
  result.mapError (Failure.file path)

inductive Warning where
  | missingEntry (list : Path) (line : Nat) (entry : Text)
  | refusedRule (file : Path) (line : Nat) (reason : Rejection) (text : Text)
  | unusedRule (pattern : Text)
  deriving DecidableEq, Repr

def FileSystem.readLines (files : FileSystem) (path : Path) : Except Failure (List Text) :=
  onPath path ((files.read path).map Text.lines)

/-- Makes the file that a path leads to hold just the given lines. -/
def FileSystem.writeLines (files : FileSystem) (path : Path) (lines : List Text) :
    Except Failure FileSystem :=
  onPath path (files.write path (Text.ofLines lines))

/-- A result with the warnings given on the way to it, whether it was reached or not. -/
structure Noted (α : Type) where
  warnings : List Warning
  result : Except Failure α

namespace Noted

variable {α β : Type}

def ofResult (result : Except Failure α) : Noted α := ⟨[], result⟩

/-- Goes on after a step that succeeded; its warnings come first. -/
def andThen (step : Noted α) (next : α → Noted β) : Noted β :=
  match step.result with
  | .error failure => ⟨step.warnings, .error failure⟩
  | .ok value => ⟨step.warnings ++ (next value).warnings, (next value).result⟩

instance : Monad Noted where
  pure value := ⟨[], .ok value⟩
  bind := andThen

def warn (warnings : List Warning) : Noted Unit := ⟨warnings, .ok ()⟩

end Noted

end TreeMigration
