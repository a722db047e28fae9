import TreeMigration.Failure
import TreeMigration.Json.Value

/-!
Comparing generated files with a reference tree. Differences are collected and never stop the
comparison; it fails only where a file lies outside the tree or cannot be read.

For every generated file the reference is the file at the same path below the reference root. There
are three kinds of difference. A reference that is no file is one difference, and the generated file
is then not read. Files with different numbers of lines differ in that alone: their lines are not
compared. Otherwise every pair of unequal lines is a difference, numbered from one, so one file can
have many.

A report is printed as text, one mismatch after the other before the status, or as JSON after it.
The JSON value is built by `Report.value` and printed by `Json.Value.pretty`; the path of a
reference is told only where the reference is missing.
-/
namespace TreeMigration

/-- In what a generated file differs from its reference. -/
inductive Difference where
  | missingReference (reference : Path)
  | lineCount (produced reference : Nat)
  | line (number : Nat) (produced reference : Text)
  deriving DecidableEq, Repr

structure Mismatch where
  file : Path
  difference : Difference
  deriving DecidableEq, Repr

structure Report where
  filesChecked : Nat
  mismatches : List Mismatch
  deriving DecidableEq, Repr

def Mismatch.message (mismatch : Mismatch) : Text :=
  mismatch.file.text ++ ": " ++ match mismatch.difference with
    | .missingReference reference => "reference file not found: " ++ reference.text
    | .lineCount produced reference =>
      "Invalid line count: dest=" ++ Text.ofNat produced ++ " test=" ++ Text.ofNat reference
    | .line number produced reference =>
      "line " ++ Text.ofNat number ++ "\n  \"" ++ produced ++ "\"\n  \"" ++ reference ++ "\""

namespace Report

def isClean (report : Report) : Bool := report.mismatches.isEmpty

def status (report : Report) : Text :=
  if report.isClean then "finished - everything OK"
  else "finished - " ++ Text.ofNat report.mismatches.length ++ " ERRORS"

end Report

namespace Comparison

/-- The reference path of a generated file: the same path below the reference root. -/
def referencePath (destinationRoot referenceRoot produced : Path) : Except Failure Path :=
  match Path.stripPrefix? destinationRoot produced with
  | some relative => .ok (referenceRoot.join relative)
  | none => .error (.configuration (.outsideDestinationRoot produced destinationRoot))

/-- The lines that differ, of which the first has the given number; the shorter list decides how
far the comparison goes. -/
def differingLines : Nat → List Text → List Text → List Difference
  | number, ours :: oursLater, theirs :: theirsLater =>
    let rest := differingLines (number + 1) oursLater theirsLater
    if ours = theirs then rest else .line number ours theirs :: rest
  | _, _, _ => []

/-- In what the lines of a file differ from those of its reference. Lines are compared one by one
only where there are equally many. -/
def differences (produced reference : List Text) : List Difference :=
  if produced.length = reference.length then differingLines 1 produced reference
  else [.lineCount produced.length reference.length]

def checkFile (files : FileSystem) (destinationRoot referenceRoot file : Path) :
    Except Failure (List Difference) := do
  let reference ← referencePath destinationRoot referenceRoot file
  if files.isFile reference then
    let ours ← files.readLines file
    let theirs ← files.readLines reference
    .ok (differences ours theirs)
  else .ok [.missingReference reference]

/-- Compares generated files with their references, one after the other. -/
def check (files : FileSystem) (destinationRoot referenceRoot : Path) :
    List Path → Except Failure Report
  | [] => .ok ⟨0, []⟩
  | file :: later => do
    let found ← checkFile files destinationRoot referenceRoot file
    let rest ← check files destinationRoot referenceRoot later
    .ok ⟨rest.filesChecked + 1, found.map (Mismatch.mk file) ++ rest.mismatches⟩

end Comparison

namespace Report

def count (n : Nat) : Json.Value := .number (Text.ofNat n)

/-- The members that tell a difference: its kind, then what belongs to that kind. -/
def differenceMembers : Difference → Json.Members
  | .missingReference reference =>
    [("kind", .string "missing_reference"), ("reference", .string reference.text)]
  | .lineCount produced reference =>
    [("kind", .string "line_count"), ("produced", count produced), ("reference", count reference)]
  | .line number produced reference =>
    [("kind", .string "line"), ("line", count number), ("produced", .string produced),
      ("reference", .string reference)]

def mismatchValue (mismatch : Mismatch) : Json.Value :=
  .object (("file", .string mismatch.file.text) :: differenceMembers mismatch.difference)

def value (report : Report) : Json.Value :=
  .object [("files_checked", count report.filesChecked),
    ("mismatches", .array (report.mismatches.map mismatchValue))]

def json (report : Report) : Text := report.value.pretty 0

end Report

end TreeMigration
