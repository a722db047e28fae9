import TreeMigration.Proofs.FileSystem.Lines

/-!
Files that hold text. Bytes are read as a text exactly if they are its UTF-8 form, so a path can be
read exactly if it leads to a file with such bytes.

`HoldsText` says what a path leads to, in place of what reading it answers. A text is determined by
the bytes (`HoldsText.unique`), so two statements about what one path holds can be compared, and
writing elsewhere keeps it (`Confined.holdsText`). `readLines_eq_error_iff` is the other side: a
path that leads to no file, and one that leads to a file of other bytes, cannot be read.
-/
namespace TreeMigration

namespace FileSystem

theorem decode_eq_ok_iff {content : ByteArray} {t : Text} :
    decode content = .ok t ↔ content = encode t := by
  unfold decode encode String.fromUTF8?
  constructor
  · intro decoded
    split at decoded
    · rename_i s found
      cases decoded
      split at found
      · cases found
        rw [String.ofList_toList]
        rfl
      · cases found
    · cases decoded
  · rintro rfl
    rw [String.toUTF8_eq_toByteArray, dif_pos (String.ofList t).isValidUTF8]
    exact congrArg Except.ok String.toList_ofList

/-- A path leads to a file that holds the UTF-8 form of a text. -/
def HoldsText (files : FileSystem) (path : Path) (t : Text) : Prop :=
  ∃ location, files.locate path = .ok (location, .file (encode t))

theorem HoldsText.unique {files : FileSystem} {path : Path} {t t' : Text}
    (holds : files.HoldsText path t) (holds' : files.HoldsText path t') : t = t' := by
  obtain ⟨location, leads⟩ := holds
  obtain ⟨location', leads'⟩ := holds'
  rw [leads, Except.ok.injEq, Prod.mk.injEq, Entry.file.injEq] at leads'
  have same : encode t = encode t' := leads'.2
  have decoded := decode_eq_ok_iff.mpr same
  rw [decode_eq_ok_iff.mpr rfl] at decoded
  exact Except.ok.inj decoded

/-- Paths that lead to one file hold the same text. -/
theorem SameFile.holdsText {files : FileSystem} {path other : Path} {t : Text}
    (same : files.SameFile path other) (holds : files.HoldsText path t) :
    files.HoldsText other t := by
  obtain ⟨location, content, first, second⟩ := same
  obtain ⟨location', leads⟩ := holds
  rw [first, Except.ok.injEq, Prod.mk.injEq, Entry.file.injEq] at leads
  exact ⟨location, leads.2 ▸ second⟩

/-- A path keeps its text unless one of the written paths leads to the same file. -/
theorem Confined.holdsText {written made : List Path} {files later : FileSystem}
    (confined : Confined written made files later) {path : Path} {t : Text}
    (holds : files.HoldsText path t) :
    later.HoldsText path t ∨ ∃ destination ∈ written, later.SameFile destination path := by
  by_cases shared : ∃ destination ∈ written, later.SameFile destination path
  · exact .inr shared
  · obtain ⟨location, leads⟩ := holds
    refine .inl ⟨location, confined.locate_file leads ?_⟩
    intro destination listed new there same
    exact absurd ⟨destination, listed, location, new, there, same⟩ shared

theorem readLines_eq_ok_iff_holdsText {files : FileSystem} {path : Path} {lines : List Text} :
    files.readLines path = .ok lines ↔ ∃ t, files.HoldsText path t ∧ Text.lines t = lines := by
  rw [readLines_eq_ok_iff]
  constructor
  · rintro ⟨location, content, leads, read⟩
    cases decoded : decode content with
    | error cause =>
      rw [decoded] at read
      cases read
    | ok t =>
      rw [decoded] at read
      cases read
      exact ⟨t, ⟨location, decode_eq_ok_iff.mp decoded ▸ leads⟩, rfl⟩
  · rintro ⟨t, ⟨location, leads⟩, rfl⟩
    exact ⟨location, encode t, leads, by rw [decode_eq_ok_iff.mpr rfl]; rfl⟩

/-- A path cannot be read exactly if it leads to no file that holds text. -/
theorem readLines_eq_error_iff {files : FileSystem} {path : Path} :
    (∃ failure, files.readLines path = .error failure) ↔ ∀ t, ¬ files.HoldsText path t := by
  cases read : files.readLines path with
  | ok lines =>
    obtain ⟨t, holds, -⟩ := readLines_eq_ok_iff_holdsText.mp read
    simp only [reduceCtorEq, exists_false, false_iff, not_forall, not_not]
    exact ⟨t, holds⟩
  | error failure =>
    simp only [Except.error.injEq, exists_eq', true_iff]
    intro t holds
    rw [readLines_eq_ok_iff_holdsText.mpr ⟨t, holds, rfl⟩] at read
    cases read

end FileSystem

end TreeMigration
