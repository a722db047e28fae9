import TreeMigration.Proofs.Comparison.LineByLine
import TreeMigration.Proofs.FileSystem.Encoding
import TreeMigration.Proofs.Path.Stripping
import Mathlib

/-!
What a comparison reports and when it fails. Each generated file adds a block of its own to the
report, which is empty only for a file that agrees with its reference; a comparison fails exactly if
one of the files does by itself.

`Block` says what the differences of one file are: when there are none, and what there is in each of
the three cases, a missing reference, another number of lines, and a line by line comparison, whose
meaning is `LineByLine`. It is stated by what the files hold and not by how they are compared. A
file with a reference has its block by `block_differences`, one without by `block_missing`.

`Unfit` collects why a file cannot be compared. `check_eq_ok` and `check_eq_error_iff` go over the
list of files by induction: a comparison stops at the first unfit file, but since it is an error or
a report and nothing in between, only whether there is one matters.
-/
namespace TreeMigration

namespace Comparison

open FileSystem

/-- The differences of one generated file with its reference. -/
structure Block (files : FileSystem) (file reference : Path) (found : List Difference) : Prop where
  clean : found = [] ↔ files.isFile reference = true ∧
    ∃ lines, files.readLines file = .ok lines ∧ files.readLines reference = .ok lines
  missing : files.isFile reference = false → found = [.missingReference reference]
  counted : ∀ ours theirs, files.isFile reference = true → files.readLines file = .ok ours →
    files.readLines reference = .ok theirs → ours.length ≠ theirs.length →
      found = [.lineCount ours.length theirs.length]
  compared : ∀ ours theirs, files.isFile reference = true → files.readLines file = .ok ours →
    files.readLines reference = .ok theirs → ours.length = theirs.length →
      LineByLine ours theirs found

theorem differences_eq_nil_iff {ours theirs : List Text} :
    differences ours theirs = [] ↔ ours = theirs := by
  unfold differences
  split
  · rename_i same
    have found := lineByLine_differingLines same
    constructor
    · intro empty
      have corrected := found.corrected
      rwa [empty] at corrected
    · rintro rfl
      refine List.eq_nil_iff_forall_not_mem.mpr fun difference member => ?_
      obtain ⟨i, a, b, first, second, apart, -⟩ := (found.mem_iff difference).mp member
      rw [first] at second
      exact apart (Option.some.inj second)
  · rename_i other
    simp only [reduceCtorEq, false_iff]
    rintro rfl
    exact other rfl

theorem block_missing {files : FileSystem} {file reference : Path}
    (missing : files.isFile reference = false) :
    Block files file reference [.missingReference reference] where
  clean := by simp [missing]
  missing := fun _ => rfl
  counted := fun _ _ isFile => by simp [missing] at isFile
  compared := fun _ _ isFile => by simp [missing] at isFile

theorem block_differences {files : FileSystem} {file reference : Path} {ours theirs : List Text}
    (isFile : files.isFile reference = true) (read : files.readLines file = .ok ours)
    (readReference : files.readLines reference = .ok theirs) :
    Block files file reference (differences ours theirs) where
  clean := by
    rw [differences_eq_nil_iff]
    constructor
    · rintro rfl
      exact ⟨isFile, ours, read, readReference⟩
    · rintro ⟨-, lines, first, second⟩
      cases read.symm.trans first
      cases readReference.symm.trans second
      rfl
  missing := fun missing => by simp [isFile] at missing
  counted := by
    intro _ _ _ first second apart
    cases read.symm.trans first
    cases readReference.symm.trans second
    rw [differences, if_neg apart]
  compared := by
    intro _ _ _ first second same
    cases read.symm.trans first
    cases readReference.symm.trans second
    rw [differences, if_pos same]
    exact lineByLine_differingLines same

/-- A file that can be compared gets its block. -/
theorem checkFile_eq_ok {files : FileSystem} {destinationRoot referenceRoot file : Path}
    {found : List Difference}
    (done : checkFile files destinationRoot referenceRoot file = .ok found) :
    ∃ reference, referencePath destinationRoot referenceRoot file = .ok reference ∧
      Block files file reference found := by
  obtain ⟨reference, mapped, done⟩ := bind_eq_ok.mp done
  refine ⟨reference, mapped, ?_⟩
  split at done
  · rename_i isFile
    obtain ⟨ours, read, done⟩ := bind_eq_ok.mp done
    obtain ⟨theirs, readReference, done⟩ := bind_eq_ok.mp done
    cases done
    exact block_differences isFile read readReference
  · rename_i missing
    cases done
    exact block_missing (by simpa using missing)

/-- Why one file cannot be compared: it is not below the destination root, or it has a reference and
one of the two cannot be read. -/
def Unfit (files : FileSystem) (destinationRoot referenceRoot file : Path) : Prop :=
  ¬ destinationRoot.Begins file ∨
    ∃ reference, referencePath destinationRoot referenceRoot file = .ok reference ∧
      files.isFile reference = true ∧
      ((∀ t, ¬ files.HoldsText file t) ∨ ∀ t, ¬ files.HoldsText reference t)

theorem referencePath_eq_error_iff {destinationRoot referenceRoot file : Path} :
    (∃ failure, referencePath destinationRoot referenceRoot file = .error failure) ↔
      ¬ destinationRoot.Begins file := by
  rw [← Path.stripPrefix?_isSome_iff]
  unfold referencePath
  cases Path.stripPrefix? destinationRoot file with
  | none => simp
  | some relative => simp

theorem checkFile_eq_error_iff {files : FileSystem} {destinationRoot referenceRoot file : Path} :
    (∃ failure, checkFile files destinationRoot referenceRoot file = .error failure) ↔
      Unfit files destinationRoot referenceRoot file := by
  unfold Unfit
  rw [← @referencePath_eq_error_iff destinationRoot referenceRoot file,
    ← readLines_eq_error_iff]
  unfold checkFile
  cases mapped : referencePath destinationRoot referenceRoot file with
  | error failure => simp [bind, Except.bind]
  | ok reference =>
    simp only [← readLines_eq_error_iff]
    simp only [bind, Except.bind]
    split
    · rename_i isFile
      cases read : files.readLines file with
      | error failure => simp [isFile]
      | ok ours =>
        cases readReference : files.readLines reference with
        | error failure => simp [isFile, readReference]
        | ok theirs => simp [readReference]
    · rename_i missing
      simp [missing]

def entries (file : Path) (found : List Difference) : List Mismatch := found.map (Mismatch.mk file)

/-- A finished comparison has a block for each file, in their order. -/
theorem check_eq_ok {files : FileSystem} {destinationRoot referenceRoot : Path}
    {produced : List Path} {report : Report}
    (done : check files destinationRoot referenceRoot produced = .ok report) :
    report.filesChecked = produced.length ∧
    ∃ blocks, report.mismatches = (produced.zipWith entries blocks).flatten ∧
      List.Forall₂ (fun file found =>
        checkFile files destinationRoot referenceRoot file = .ok found) produced blocks := by
  induction produced generalizing report with
  | nil =>
    cases done
    exact ⟨rfl, [], rfl, .nil⟩
  | cons file later ih =>
    obtain ⟨found, checked, done⟩ := bind_eq_ok.mp done
    obtain ⟨rest, restDone, done⟩ := bind_eq_ok.mp done
    cases done
    obtain ⟨count, blocks, mismatches, each⟩ := ih restDone
    refine ⟨by simp [count], found :: blocks, ?_, .cons checked each⟩
    rw [mismatches]
    rfl

/-- A comparison fails exactly if one of its files does. -/
theorem check_eq_error_iff {files : FileSystem} {destinationRoot referenceRoot : Path}
    {produced : List Path} :
    (∃ failure, check files destinationRoot referenceRoot produced = .error failure) ↔
      ∃ file ∈ produced,
        ∃ failure, checkFile files destinationRoot referenceRoot file = .error failure := by
  induction produced with
  | nil => simp [check]
  | cons file later ih =>
    rw [List.exists_mem_cons_iff, ← ih]
    simp only [check]
    cases checked : checkFile files destinationRoot referenceRoot file with
    | error failure => simp [bind, Except.bind]
    | ok found =>
      cases rest : check files destinationRoot referenceRoot later with
      | error failure => simp [bind, Except.bind]
      | ok report => simp [bind, Except.bind]

/-- What a comparison reports, and when it fails: the files are all counted, the report is made of
their blocks in order, and it is missing exactly if one of the files cannot be compared. -/
theorem check_exact (files : FileSystem) (destinationRoot referenceRoot : Path)
    (produced : List Path) :
    (∀ report, check files destinationRoot referenceRoot produced = .ok report →
      report.filesChecked = produced.length ∧
      ∃ blocks, report.mismatches = (produced.zipWith entries blocks).flatten ∧
        List.Forall₂ (fun file found => ∃ reference,
          referencePath destinationRoot referenceRoot file = .ok reference ∧
          Block files file reference found) produced blocks) ∧
    ((∃ failure, check files destinationRoot referenceRoot produced = .error failure) ↔
      ∃ file ∈ produced, Unfit files destinationRoot referenceRoot file) := by
  refine ⟨fun report done => ?_, ?_⟩
  · obtain ⟨count, blocks, mismatches, each⟩ := check_eq_ok done
    exact ⟨count, blocks, mismatches, each.imp fun _ _ => checkFile_eq_ok⟩
  · rw [check_eq_error_iff]
    simp only [checkFile_eq_error_iff]

namespace Sample

/-- A tree of generated files and a reference tree that lacks one of them and has a longer one. -/
def files : FileSystem :=
  .ofTree [
    (⟨"out"⟩, .directory),
    (⟨"ref"⟩, .directory),
    (⟨"out/a"⟩, .file (encode "one\ntwo\nthree")),
    (⟨"ref/a"⟩, .file (encode "one\n2\nthree\r\n")),
    (⟨"out/b"⟩, .file (encode "one")),
    (⟨"ref/b"⟩, .file (encode "one\ntwo")),
    (⟨"out/c"⟩, .file (encode ""))]

def produced : List Path := [⟨"out//a"⟩, ⟨"out/b"⟩, ⟨"out/c"⟩]

def report : Report :=
  ⟨3, [⟨⟨"out//a"⟩, .line 2 "two" "2"⟩, ⟨⟨"out/b"⟩, .lineCount 1 2⟩,
    ⟨⟨"out/c"⟩, .missingReference ⟨"ref/c"⟩⟩]⟩

end Sample

/-- One difference of each kind. -/
theorem check_exact_sample :
    check Sample.files ⟨"out"⟩ ⟨"ref"⟩ Sample.produced = .ok Sample.report ∧
    Sample.report.filesChecked = Sample.produced.length ∧
    ¬ ∃ file ∈ Sample.produced, Unfit Sample.files ⟨"out"⟩ ⟨"ref"⟩ file := by
  have checked : check Sample.files ⟨"out"⟩ ⟨"ref"⟩ Sample.produced = .ok Sample.report := by
    cbv
  have exact := check_exact Sample.files ⟨"out"⟩ ⟨"ref"⟩ Sample.produced
  refine ⟨checked, (exact.1 _ checked).1, ?_⟩
  rw [← exact.2, checked]
  rintro ⟨failure, ⟨⟩⟩

end Comparison

end TreeMigration
