import TreeMigration.CommandLine.Execution
import TreeMigration.Proofs.FileSystem.Encoding
import TreeMigration.Proofs.Generation.Preparing
import Mathlib

/-!
Sources that cannot be read. The first pass stops at the first of them and writes nothing, and the
second pass does not begin before the first has read every source; so one unreadable source is
enough for a run to leave the files as they were.

`indexSources_eq_error_iff` says exactly with what the first pass fails, by induction on the
sources: all in front can be read, and the failure is that of the next one. A file that does not
hold text can be found but not read (`readLines_of_not_text`), and among several there is a first
(`exists_first_unreadable`).
-/
namespace TreeMigration

namespace FileSystem

/-- A file that does not hold text can be found but not read. -/
theorem readLines_of_not_text {files : FileSystem} {path : Path}
    (isFile : files.isFile path = true) (unreadable : ∀ t, ¬ files.HoldsText path t) :
    files.readLines path = .error (.file path .notText) := by
  obtain ⟨location, content, located⟩ := isFile_iff.mp isFile
  have undecoded : decode content = .error .notText := by
    cases decoded : decode content with
    | ok t => exact absurd ⟨location, decode_eq_ok_iff.mp decoded ▸ located⟩ (unreadable t)
    | error cause =>
      unfold decode at decoded
      split at decoded
      · cases decoded
      · exact decoded.symm
  simp [readLines, read, located, undecoded, onPath, bind, Except.bind, Except.map,
    Except.mapError]

end FileSystem

namespace Preparation

open FileSystem

/-- The first pass fails exactly with the failure of the first source that cannot be read. -/
theorem indexSources_eq_error_iff {files : FileSystem} {indexing : Indexing}
    {sources : List SourceFile} {failure : Failure} :
    indexSources files indexing sources = .error failure ↔
      ∃ before source later, sources = before ++ source :: later ∧
        (∀ other ∈ before, ∃ lines, files.readLines other.path = .ok lines) ∧
        files.readLines source.path = .error failure := by
  induction sources generalizing indexing with
  | nil =>
    refine ⟨fun failed => (by cases failed), ?_⟩
    rintro ⟨before, source, later, whole, -⟩
    cases before <;> cases whole
  | cons first rest ih =>
    rw [indexSources, bind_eq_error]
    constructor
    · rintro (unread | ⟨lines, read, failed⟩)
      · exact ⟨[], first, rest, rfl, by simp, unread⟩
      · obtain ⟨before, source, later, rfl, readable, unread⟩ := ih.mp failed
        refine ⟨first :: before, source, later, rfl, ?_, unread⟩
        intro other listed
        rcases List.mem_cons.mp listed with rfl | listed
        · exact ⟨lines, read⟩
        · exact readable other listed
    · rintro ⟨before, source, later, whole, readable, unread⟩
      cases before with
      | nil =>
        cases whole
        exact .inl unread
      | cons head before =>
        cases whole
        obtain ⟨lines, read⟩ := readable first List.mem_cons_self
        refine .inr ⟨lines, read, ih.mpr ⟨before, source, later, rfl, ?_, unread⟩⟩
        exact fun other listed => readable other (List.mem_cons_of_mem _ listed)

open Classical in
/-- Among sources of which one holds no text there is a first such one. -/
theorem exists_first_unreadable {files : FileSystem} {sources : List SourceFile}
    (unreadable : ∃ source ∈ sources, ∀ t, ¬ files.HoldsText source.path t) :
    ∃ before source later, sources = before ++ source :: later ∧
      (∀ other ∈ before, ∃ t, files.HoldsText other.path t) ∧
      ∀ t, ¬ files.HoldsText source.path t := by
  obtain ⟨stuck, listed, blank⟩ := unreadable
  cases found : sources.find? (fun source => decide (∀ t, ¬ files.HoldsText source.path t)) with
  | none => exact absurd blank (by simpa using List.find?_eq_none.mp found stuck listed)
  | some source =>
    obtain ⟨holds, before, later, whole, readable⟩ := List.find?_eq_some_iff_append.mp found
    exact ⟨before, source, later, whole, fun other inFront => by simpa using readable other inFront,
      by simpa using holds⟩

end Preparation

namespace CommandLine

open Preparation FileSystem

/-- Nothing is written unless every source has been read: if one of them holds no text, a run fails
on the first such one and leaves the files as they were. -/
theorem run_of_unreadable_source {files : FileSystem} {settings : Settings}
    {preparation : Preparation}
    (prepared : (ofSettings files settings).result = .ok preparation)
    (unreadable : ∃ source ∈ preparation.sources, ∀ t, ¬ files.HoldsText source.path t) :
    ∃ before source later, preparation.sources = before ++ source :: later ∧
      (∀ other ∈ before, ∃ t, files.HoldsText other.path t) ∧
      (∀ t, ¬ files.HoldsText source.path t) ∧
      preparation.run files = (files, .error (.file source.path .notText)) ∧
      ∀ invocation : Invocation, invocation.settings = settings →
        (execute invocation files).files = files ∧
        (execute invocation files).result =
          .error ⟨some .indexing, .file source.path .notText⟩ := by
  obtain ⟨before, source, later, whole, readable, holds⟩ := exists_first_unreadable unreadable
  have listed : source ∈ preparation.sources := by simp [whole]
  have isFile := (SourceList.admitted_of_resolve (ofSettings_eq_ok prepared).sources source
    listed).isFile
  have failed : preparation.index files = .error (.file source.path .notText) := by
    refine indexSources_eq_error_iff.mpr ⟨before, source, later, whole, ?_,
      readLines_of_not_text isFile holds⟩
    intro other inFront
    obtain ⟨t, text⟩ := readable other inFront
    exact ⟨Text.lines t, readLines_eq_ok_iff_holdsText.mpr ⟨t, text, rfl⟩⟩
  refine ⟨before, source, later, whole, readable, holds, ?_, ?_⟩
  · rw [run, failed]
  · rintro invocation rfl
    simp only [execute, prepared, failed, and_self]

namespace Unreadable

/-- Three sources, of which the second is not text; the first would have an output. -/
def files : FileSystem :=
  .ofTree [
    (⟨"src"⟩, .directory),
    (⟨"out"⟩, .directory),
    (⟨"rules"⟩, .file (encode "\x7b\"from\":\"a\",\"to\":\"b\",\"multiple\":true\x7d")),
    (⟨"src/a.kt"⟩, .file (encode "a")),
    (⟨"src/b.kt"⟩, .file ⟨#[0x61, 0xFF]⟩),
    (⟨"src/c.kt"⟩, .file (encode "a"))]

def invocation : Invocation where
  settings :=
    { Settings.default with
      sourceRoot := ⟨"src"⟩
      sourceList := ⟨"src"⟩
      destinationRoot := ⟨"out"⟩
      ruleFile := ⟨"rules"⟩ }
  denyMismatches := false
  json := false
  debug := false

def preparation : Preparation :=
  ⟨invocation.settings, ⟨"/src"⟩,
    [⟨⟨"src/a.kt"⟩, ".kt"⟩, ⟨⟨"src/b.kt"⟩, ".kt"⟩, ⟨⟨"src/c.kt"⟩, ".kt"⟩], [⟨"a", "b", .all⟩], 0⟩

theorem prepared_of_files : (ofSettings files invocation.settings).result = .ok preparation := by
  cbv

end Unreadable

/-- The readable source in front of the one that is not text has no output. -/
theorem run_of_unreadable_source_second :
    (ofSettings Unreadable.files Unreadable.invocation.settings).result =
        .ok Unreadable.preparation ∧
      (∀ t, ¬ Unreadable.files.HoldsText ⟨"src/b.kt"⟩ t) ∧
      Unreadable.preparation.run Unreadable.files =
        (Unreadable.files, .error (.file ⟨"src/b.kt"⟩ .notText)) ∧
      (execute Unreadable.invocation Unreadable.files).files = Unreadable.files := by
  have undecoded : ∀ t, ¬ Unreadable.files.HoldsText ⟨"src/b.kt"⟩ t := by
    refine readLines_eq_error_iff.mp ⟨.file ⟨"src/b.kt"⟩ .notText, ?_⟩
    rfl
  obtain ⟨before, source, later, -, -, -, ran, executed⟩ :=
    run_of_unreadable_source Unreadable.prepared_of_files
      ⟨⟨⟨"src/b.kt"⟩, ".kt"⟩, by simp [Unreadable.preparation], undecoded⟩
  have named : (Unreadable.preparation.run Unreadable.files).2 =
      .error (.file ⟨"src/b.kt"⟩ .notText) := by rfl
  refine ⟨Unreadable.prepared_of_files, undecoded, ?_, (executed Unreadable.invocation rfl).1⟩
  rw [ran] at named ⊢
  exact Prod.ext rfl named

end CommandLine

end TreeMigration
