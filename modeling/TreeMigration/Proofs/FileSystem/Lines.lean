import TreeMigration.Proofs.FileSystem.Writing
import TreeMigration.Proofs.Outcome

/-!
Lines of files. What a path reads is settled by the file it leads to, so a file that no written path
leads to reads the same afterwards.

`SameFile` is the relation between paths that matters when outputs and sources are compared: two
paths, perhaps spelled differently or leading through links, with one location behind them. It lasts
while the tree grows (`SameFile.of_grown`). `writeLines_spec` and `Confined.readLines` are the two
halves of the frame: what the written path holds afterwards, and that every other file reads as
before.
-/
namespace TreeMigration

namespace FileSystem

/-- Two paths lead to one file. -/
def SameFile (files : FileSystem) (path other : Path) : Prop :=
  ∃ location content, files.locate path = .ok (location, .file content) ∧
    files.locate other = .ok (location, .file content)

/-- Paths that lead to one file lead to one file from then on. -/
theorem SameFile.of_grown {files later : FileSystem} (grown : Grown files later)
    {path other : Path} (same : files.SameFile path other) : later.SameFile path other := by
  obtain ⟨location, content, first, second⟩ := same
  obtain ⟨entry, leads, alike⟩ := locate_of_grown grown first
  obtain ⟨entry', leads', -⟩ := locate_of_grown grown second
  cases entry_eq_of_locate leads leads'
  cases alike with
  | same => exact ⟨location, content, leads, leads'⟩
  | contents _ new => exact ⟨location, new, leads, leads'⟩

theorem SameFile.symm {files : FileSystem} {path other : Path}
    (same : files.SameFile path other) : files.SameFile other path := by
  obtain ⟨location, content, first, second⟩ := same
  exact ⟨location, content, second, first⟩

/-- Paths that lead to different locations lead to different files. -/
theorem not_sameFile_of_locate {files : FileSystem} {path other : Path}
    {location elsewhere : Location} {entry entry' : Entry}
    (leads : files.locate path = .ok (location, entry))
    (leads' : files.locate other = .ok (elsewhere, entry')) (apart : location ≠ elsewhere) :
    ¬ files.SameFile path other := by
  rintro ⟨shared, content, first, second⟩
  rw [leads] at first
  rw [leads'] at second
  cases first
  cases second
  exact apart rfl

/-- The lines that a path leads to are those of the file at its location. -/
theorem readLines_eq_ok_iff {files : FileSystem} {path : Path} {lines : List Text} :
    files.readLines path = .ok lines ↔
      ∃ location content, files.locate path = .ok (location, .file content) ∧
        (decode content).map Text.lines = .ok lines := by
  unfold readLines
  rw [onPath_eq_ok_iff, read]
  cases located : files.locate path with
  | error cause => simp [bind, Except.bind, Except.map]
  | ok found =>
    obtain ⟨location, entry⟩ := found
    cases entry with
    | directory => simp [bind, Except.bind, Except.map]
    | link target => simp [bind, Except.bind, Except.map]
    | file content => simp [bind, Except.bind]

/-- Paths that lead to one file give the same lines. -/
theorem SameFile.readLines {files : FileSystem} {path other : Path} {lines : List Text}
    (same : files.SameFile path other) (read : files.readLines path = .ok lines) :
    files.readLines other = .ok lines := by
  obtain ⟨location, content, first, second⟩ := same
  obtain ⟨location', content', leads, decoded⟩ := readLines_eq_ok_iff.mp read
  rw [first] at leads
  cases leads
  exact readLines_eq_ok_iff.mpr ⟨location, content, second, decoded⟩

/-- A file that none of the written paths leads to keeps its lines. -/
theorem Confined.readLines {written made : List Path} {files later : FileSystem}
    (confined : Confined written made files later) {path : Path} {lines : List Text}
    (read : files.readLines path = .ok lines)
    (apart : ∀ destination ∈ written, ¬ later.SameFile destination path) :
    later.readLines path = .ok lines := by
  obtain ⟨location, content, leads, decoded⟩ := readLines_eq_ok_iff.mp read
  have kept : later.locate path = .ok (location, .file content) := by
    refine confined.locate_file leads ?_
    intro destination listed new there same
    exact absurd ⟨location, new, there, same⟩ (apart destination listed)
  exact readLines_eq_ok_iff.mpr ⟨location, content, kept, decoded⟩

/-- Lines written are left where the path leads, each with an end, and nothing else is changed. -/
theorem writeLines_spec {files after : FileSystem} {path : Path} {lines : List Text}
    (done : files.writeLines path lines = .ok after) :
    Confined [path] [] files after ∧
      ∃ location, after.locate path = .ok (location, .file (encode (Text.ofLines lines))) := by
  exact writeBytes_spec (onPath_eq_ok_iff.mp done)

end FileSystem

end TreeMigration
