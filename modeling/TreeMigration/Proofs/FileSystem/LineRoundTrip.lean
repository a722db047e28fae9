import TreeMigration.Proofs.FileSystem.Encoding
import TreeMigration.Proofs.Text.LineEnds

/-!
Files written and read line by line. Whether lines come back from a file is a question about the
lines alone, and what a text becomes on its way through them is a question about the text alone; the
file system only carries the bytes.

The two questions are settled with the ends of lines. Here a successful write is known to leave the
text of the lines where its path leads (`holdsText_of_writeLines`), and a path that holds a text
gives its lines (`HoldsText.readLines`), so each answer is carried over by rewriting. That a write
succeeds at all is not claimed; that a file written can be read is.
-/
namespace TreeMigration

namespace FileSystem

/-- Lines written are where the path leads, each with an end. -/
theorem holdsText_of_writeLines {before after : FileSystem} {path : Path} {lines : List Text}
    (written : before.writeLines path lines = .ok after) :
    after.HoldsText path (Text.ofLines lines) :=
  (writeLines_spec written).2

theorem HoldsText.readLines {files : FileSystem} {path : Path} {t : Text}
    (holds : files.HoldsText path t) : files.readLines path = .ok (Text.lines t) :=
  readLines_eq_ok_iff_holdsText.mpr ⟨t, holds, rfl⟩

theorem newline_not_mem_of_readLines {files : FileSystem} {path : Path} {lines : List Text}
    (read : files.readLines path = .ok lines) : ∀ line ∈ lines, '\n' ∉ line := by
  obtain ⟨t, -, rfl⟩ := readLines_eq_ok_iff_holdsText.mp read
  exact fun line => Text.not_mem_of_mem_lines

/-- Lines written to a file are read back as just those lines exactly if none holds a line feed and
none ends in a carriage return; and what is written for the lines of a file is its text with one
carriage return less before each line feed and with an end of its last line. -/
theorem line_files_round_trip :
    (∀ (before after : FileSystem) (path : Path) (lines : List Text),
      before.writeLines path lines = .ok after →
        ∃ back, after.readLines path = .ok back ∧
          (back = lines ↔ ∀ line ∈ lines, '\n' ∉ line ∧ line.getLast? ≠ some '\r')) ∧
    ∀ (files : FileSystem) (path : Path) (t : Text), files.HoldsText path t →
      ∃ lines, files.readLines path = .ok lines ∧
        ∀ (before after : FileSystem) (copy : Path), before.writeLines copy lines = .ok after →
          after.HoldsText copy t.plainEnded := by
  constructor
  · intro before after path lines written
    exact ⟨_, (holdsText_of_writeLines written).readLines, Text.lines_ofLines_eq_self_iff⟩
  · intro files path t holds
    refine ⟨Text.lines t, holds.readLines, ?_⟩
    intro before after copy written
    rw [← Text.ofLines_lines]
    exact holdsText_of_writeLines written

namespace Returns

/-- Carriage returns alone, in a row before a line feed and before a missing one. -/
def text : Text := "\r\n\ra\r\r\n\r"

def lines : List Text := ["", "\ra\r", "\r"]

def files : FileSystem := .ofTree [(⟨"a"⟩, .file (encode text))]

end Returns

/-- Of each row of carriage returns before a line feed one is lost, and the one at the very end
comes before a line feed. The lines written so come back with one carriage return less each. -/
theorem line_files_round_trip_returns :
    Returns.files.HoldsText ⟨"a"⟩ Returns.text ∧
    ∃ after, Returns.files.writeLines ⟨"b"⟩ Returns.lines = .ok after ∧
      after.HoldsText ⟨"b"⟩ "\n\ra\r\n\r\n" ∧
      ∃ back, after.readLines ⟨"b"⟩ = .ok back ∧ back ≠ Returns.lines := by
  have holds : Returns.files.HoldsText ⟨"a"⟩ Returns.text :=
    ⟨[⟨"a", by decide⟩], by decide +kernel⟩
  obtain ⟨lines, read, copies⟩ := line_files_round_trip.2 _ _ _ holds
  have gives : Returns.files.readLines ⟨"a"⟩ = .ok Returns.lines := by decide +kernel
  cases gives.symm.trans read
  have writes : (Returns.files.writeLines ⟨"b"⟩ Returns.lines).isOk = true := by
    decide +kernel
  cases written : Returns.files.writeLines ⟨"b"⟩ Returns.lines with
  | error failure =>
    rw [written] at writes
    cases writes
  | ok after =>
    have plain : Returns.text.plainEnded = "\n\ra\r\n\r\n" := by decide +kernel
    obtain ⟨back, readBack, same⟩ := line_files_round_trip.1 _ _ _ _ written
    refine ⟨holds, after, rfl, plain ▸ copies _ _ _ written, back, readBack, ?_⟩
    rw [Ne, same]
    decide

end FileSystem

end TreeMigration
