import TreeMigration.Generation
import TreeMigration.Proofs.Editing.Tallies
import TreeMigration.Proofs.FileSystem.Lines
import TreeMigration.Proofs.Path.Ancestors

/-!
One source file of the second pass. A delivery touches the file its path leads to and directories
above it, whether it finishes or not.

The frame of a delivery is put together from that of making the directories and that of writing
(`deliver_confined`), and a delivery that finishes leaves the lines where its path leads
(`locate_of_deliver`). `editSource_eq_ok` takes the step before apart: the lines read, the editor
and the lines it makes, and the destination. These are all that the induction over the sources asks
of one source.
-/
namespace TreeMigration

namespace Preparation

open FileSystem

theorem written_confined (files : FileSystem) (destination : Path) (lines : List Text)
    {made : List Path} :
    Confined [destination] made files (deliver.written destination lines files).1 := by
  unfold deliver.written
  split
  · rename_i changed done
    exact (writeLines_spec done).1.mono (List.Subset.refl _) (List.nil_subset _)
  · exact Confined.refl files

/-- A delivery, finished or not, changes the file its path leads to and makes missing directories
above it. -/
theorem deliver_confined {files after : FileSystem} {destination : Path} {lines : List Text}
    {result : Except Failure Unit} (done : deliver files destination lines = (after, result)) :
    Confined [destination] destination.ancestors files after := by
  have changed : after = (deliver files destination lines).1 := by rw [done]
  rw [changed]
  unfold deliver
  split
  · exact written_confined files destination lines
  · rename_i parent found
    have directories := files.makeDirectoriesBelow_confined parent parent.ancestors
    rw [← Path.ancestors_of_parent found] at directories
    have below := directories.mono (List.nil_subset [destination]) (List.Subset.refl _)
    change Confined _ _ _ (files.makeDirectories parent).1 at below
    split
    · rename_i made cause shape
      rw [shape] at below
      exact below
    · rename_i made shape
      rw [shape] at below
      exact below.trans (written_confined made destination lines)

/-- A finished delivery leaves the lines where its path leads. -/
theorem locate_of_deliver {files after : FileSystem} {destination : Path} {lines : List Text}
    (done : deliver files destination lines = (after, .ok ())) :
    ∃ location, after.locate destination = .ok (location, .file (encode (Text.ofLines lines))) := by
  have written : ∀ {files : FileSystem},
      deliver.written destination lines files = (after, .ok ()) →
      ∃ location, after.locate destination =
        .ok (location, .file (encode (Text.ofLines lines))) := by
    intro files finished
    unfold deliver.written at finished
    split at finished
    · rename_i changed wrote
      cases finished
      exact (writeLines_spec wrote).2
    · cases finished
  unfold deliver at done
  split at done
  · exact written done
  · split at done
    · cases done
    · exact written done

/-- What it takes to edit one source file. -/
theorem editSource_eq_ok {preparation : Preparation} {files : FileSystem} {editor edited : Editor}
    {source : SourceFile} {lines : List Text} {destination : Path}
    (done : preparation.editSource files editor source = .ok (edited, lines, destination)) :
    ∃ original, files.readLines source.path = .ok original ∧
      edited = (editor.editLines original).1 ∧ lines = editedLines editor.plan original ∧
      preparation.destination files source = .ok destination := by
  obtain ⟨original, read, done⟩ := bind_eq_ok.mp done
  obtain ⟨goal, mapped, done⟩ := bind_eq_ok.mp done
  cases done
  exact ⟨original, read, rfl, (editor.editLines_spec original).1, mapped⟩

end Preparation

end TreeMigration
